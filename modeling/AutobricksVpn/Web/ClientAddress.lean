/-
# `AutobricksVpn.Web.ClientAddress` — the addresses that the console accepts

`ipv4Number` reads what the server's parser reads, and leading zeros besides
(`parseIpv4_iff`).  An address is spelt in one way without them
(`eq_of_ipv4Number`), in several with them.

The shift that makes the mask takes its places modulo 32, so the mask is that of
the server for the prefixes from 1 to 31, and all ones for 0 and 32; with these
no address is accepted at all.  What is accepted in a network that the server
accepts is an address of it (`validateClientAddress_ok`).
-/
import AutobricksVpn.Config.Lines
import AutobricksVpn.Net.Cidr
import AutobricksVpn.Web.ServerConfig
import Mathlib.Data.Rat.Cast.Order
import Mathlib.Tactic.Ring

namespace AutobricksVpn

namespace Web

open JsText (Runtime)

/-! ## Spellings -/

def LeadingZero (part : Text) : Prop := part.head? = some '0' ∧ 1 < part.length

instance (part : Text) : Decidable (LeadingZero part) := inferInstanceAs (Decidable (_ ∧ _))

/-- No part of an address has a leading zero. -/
def Canonical (value : Text) : Prop := ∀ part ∈ value.splitOn '.', ¬ LeadingZero part

instance (value : Text) : Decidable (Canonical value) :=
  inferInstanceAs (Decidable (∀ part ∈ value.splitOn '.', ¬ LeadingZero part))

/-- The number of a part. -/
def octet (part : Text) : Option Nat :=
  if isOctetText part then (Text.parseDigits part).filter (· ≤ 255) else none

section Octets

variable {part other : Text} {n : Nat}

theorem isOctetText_iff :
    isOctetText part = true ↔ part ≠ [] ∧ part.length ≤ 3 ∧ ∀ c ∈ part, c.isDigit = true := by
  rw [isOctetText, Bool.and_eq_true, Bool.and_eq_true, Bool.not_eq_true', List.isEmpty_eq_false_iff,
    decide_eq_true_eq, List.all_eq_true, and_assoc]

theorem octet_some :
    octet part = some n ↔ isOctetText part = true ∧ Text.parseDigits part = some n ∧ n ≤ 255 := by
  unfold octet
  split
  · rename_i h
    rw [Option.filter_eq_some_iff, decide_eq_true_eq]
    exact (and_iff_right h).symm
  · rename_i h
    exact iff_of_false (fun heq => by cases heq) fun heq => h heq.1

theorem parseDigits_of_digits (hne : part ≠ []) (h : ∀ c ∈ part, c.isDigit = true) :
    Text.parseDigits part = some (part.foldl (fun n c => 10 * n + (c.toNat - '0'.toNat)) 0) := by
  unfold Text.parseDigits
  rw [if_neg]
  rintro (hnil | hnot)
  · exact hne hnil
  · exact hnot (List.all_eq_true.mpr h)

theorem digits_of_parseDigits (h : Text.parseDigits part = some n) :
    part ≠ [] ∧ ∀ c ∈ part, c.isDigit = true := by
  unfold Text.parseDigits at h
  split at h
  · cases h
  · rename_i hnot
    rw [not_or, not_not] at hnot
    exact ⟨hnot.1, List.all_eq_true.mp hnot.2⟩

/-- The server reads a part that has no leading zero. -/
theorem parseOctet_eq (part : Text) :
    Text.parseOctet part = if LeadingZero part then none else (octet part).map UInt8.ofNat := by
  unfold Text.parseOctet octet
  by_cases hzero : LeadingZero part
  · rw [if_pos hzero, if_pos (.inr hzero)]
  · rw [if_neg hzero]
    by_cases hlong : 3 < part.length
    · rw [if_pos (.inl hlong), if_neg fun h => Nat.not_le.mpr hlong (isOctetText_iff.mp h).2.1]
      rfl
    · have hread : ¬ (3 < part.length ∨ part.head? = some '0' ∧ 1 < part.length) :=
        not_or.mpr ⟨hlong, hzero⟩
      rw [if_neg hread]
      by_cases hoctet : isOctetText part = true
      · rw [if_pos hoctet]
      · have hdigits : Text.parseDigits part = none := by
          rw [Option.eq_none_iff_forall_ne_some]
          intro n hn
          obtain ⟨hne, hdigits⟩ := digits_of_parseDigits hn
          exact hoctet (isOctetText_iff.mpr ⟨hne, Nat.not_lt.mp hlong, hdigits⟩)
        rw [if_neg hoctet, hdigits]
        rfl

theorem digit_bounds {c : Char} (h : c.isDigit = true) : 48 ≤ c.toNat ∧ c.toNat ≤ 57 := by
  rw [Char.isDigit, Bool.and_eq_true, decide_eq_true_eq, decide_eq_true_eq] at h
  exact h

theorem char_eq {c d : Char} (hc : c.isDigit = true) (hd : d.isDigit = true) :
    c.toNat - 48 = d.toNat - 48 → c = d := by
  intro h
  obtain ⟨hc, -⟩ := digit_bounds hc
  obtain ⟨hd, -⟩ := digit_bounds hd
  exact Char.toNat_inj.mp (by omega)

/-- The value of digits. -/
def decimal (t : Text) : Nat := t.foldl (fun n c => 10 * n + (c.toNat - '0'.toNat)) 0

theorem foldl_decimal (n : Nat) (t : Text) :
    t.foldl (fun n c => 10 * n + (c.toNat - '0'.toNat)) n = n * 10 ^ t.length + decimal t := by
  induction t generalizing n with
  | nil => simp [decimal]
  | cons c t ih =>
      rw [decimal, List.foldl_cons, List.foldl_cons, ih, ih (10 * 0 + (c.toNat - '0'.toNat)),
        List.length_cons, Nat.pow_succ]
      ring

theorem decimal_cons (c : Char) (t : Text) :
    decimal (c :: t) = (c.toNat - 48) * 10 ^ t.length + decimal t := by
  rw [decimal, List.foldl_cons, foldl_decimal]
  simp

theorem decimal_lt : (∀ c ∈ part, c.isDigit = true) → decimal part < 10 ^ part.length := by
  intro h
  induction part with
  | nil => decide
  | cons c part ih =>
      obtain ⟨hc, hpart⟩ := List.forall_mem_cons.mp h
      have hdigit := digit_bounds hc
      have hrest := ih hpart
      have hle : (c.toNat - 48) * 10 ^ part.length ≤ 9 * 10 ^ part.length :=
        Nat.mul_le_mul_right _ (by omega)
      rw [decimal_cons, List.length_cons, Nat.pow_succ]
      omega

/-- Digits of one length are told by their value. -/
theorem eq_of_decimal (h : ∀ c ∈ part, c.isDigit = true) (h' : ∀ c ∈ other, c.isDigit = true) :
    part.length = other.length → decimal part = decimal other → part = other := by
  induction part generalizing other with
  | nil => exact fun hlength _ => (List.eq_nil_of_length_eq_zero hlength.symm).symm
  | cons c part ih =>
      intro hlength heq
      cases other with
      | nil => cases hlength
      | cons d other =>
          obtain ⟨hc, hpart⟩ := List.forall_mem_cons.mp h
          obtain ⟨hd, hother⟩ := List.forall_mem_cons.mp h'
          have hlength := Nat.succ.inj hlength
          rw [decimal_cons, decimal_cons, ← hlength] at heq
          have hlt := decimal_lt hpart
          have hlt' := decimal_lt hother
          rw [← hlength] at hlt'
          have hdigit : c.toNat - 48 = d.toNat - 48 := by
            have hdiv := congrArg (· / 10 ^ part.length) heq
            rwa [Nat.mul_comm, Nat.mul_add_div (Nat.pow_pos (by decide)), Nat.div_eq_of_lt hlt,
              Nat.mul_comm, Nat.mul_add_div (Nat.pow_pos (by decide)), Nat.div_eq_of_lt hlt',
              Nat.add_zero, Nat.add_zero] at hdiv
          rw [hdigit] at heq
          rw [char_eq hc hd hdigit, ih hpart hother hlength (Nat.add_left_cancel heq)]

/-- A number is as long as its digits, without leading zeros. -/
theorem length_le_of_decimal (hne : part ≠ []) (h : ∀ c ∈ part, c.isDigit = true)
    (h' : ∀ c ∈ other, c.isDigit = true) :
    ¬ LeadingZero other → decimal part = decimal other → other.length ≤ part.length := by
  intro hzero heq
  by_contra hlong
  have hlong := Nat.not_le.mp hlong
  have hpos := List.length_pos_of_ne_nil hne
  cases other with
  | nil => cases hlong
  | cons d other =>
      obtain ⟨hd, -⟩ := List.forall_mem_cons.mp h'
      have hdigit := digit_bounds hd
      have hfirst : d.toNat ≠ 48 := fun hcode => by
        refine hzero ⟨congrArg some (Char.toNat_inj.mp hcode), ?_⟩
        omega
      have hpow : 10 ^ part.length ≤ 10 ^ other.length :=
        Nat.pow_le_pow_right (by decide) (Nat.le_of_lt_succ hlong)
      have hle : 1 * 10 ^ other.length ≤ (d.toNat - 48) * 10 ^ other.length :=
        Nat.mul_le_mul_right _ (by omega)
      have hlt := decimal_lt h
      rw [decimal_cons] at heq
      omega

/-- Without leading zeros, the number tells the digits. -/
theorem eq_of_octet (hpart : octet part = some n) (hother : octet other = some n) :
    ¬ LeadingZero part → ¬ LeadingZero other → part = other := by
  intro hzero hzero'
  obtain ⟨htext, hn, -⟩ := octet_some.mp hpart
  obtain ⟨htext', hn', -⟩ := octet_some.mp hother
  obtain ⟨hne, -, hdigits⟩ := isOctetText_iff.mp htext
  obtain ⟨hne', -, hdigits'⟩ := isOctetText_iff.mp htext'
  rw [parseDigits_of_digits hne hdigits] at hn
  rw [parseDigits_of_digits hne' hdigits'] at hn'
  have heq : decimal part = decimal other := Option.some.inj (hn.trans hn'.symm)
  refine eq_of_decimal hdigits hdigits' (Nat.le_antisymm ?_ ?_) heq
  · exact length_le_of_decimal hne' hdigits' hdigits hzero heq.symm
  · exact length_le_of_decimal hne hdigits hdigits' hzero' heq

end Octets

section Numbers

variable {v w : Text} {address : Ipv4Addr}

theorem toNat_new (a b c d : UInt8) :
    (Ipv4Addr.new a b c d).toNat =
      ((a.toNat * 256 + b.toNat) * 256 + c.toNat) * 256 + d.toNat := by
  have happend : ∀ {m : Nat} (x : BitVec m) (y : UInt8),
      (x ++ y.toBitVec).toNat = x.toNat * 256 + y.toNat := by
    intro m x y
    rw [BitVec.toNat_append, ← Nat.shiftLeft_add_eq_or_of_lt y.toBitVec.isLt, Nat.shiftLeft_eq]
    rfl
  rw [Ipv4Addr.new, happend, happend, happend]
  rfl

/-- The number of four parts. -/
theorem number_eq {i j k l : Nat} (hi : i ≤ 255) (hj : j ≤ 255) (hk : k ≤ 255) (hl : l ≤ 255) :
    ([i, j, k, l].foldl (fun number part => number * 256 + BitVec.ofNat 32 part) (0 : Ipv4Addr)) =
      Ipv4Addr.new (UInt8.ofNat i) (UInt8.ofNat j) (UInt8.ofNat k) (UInt8.ofNat l) := by
  have hbyte : ∀ {n : Nat}, n ≤ 255 → (UInt8.ofNat n).toNat = n := fun hn =>
    UInt8.toNat_ofNat_of_lt' (Nat.lt_succ_of_le hn)
  refine BitVec.eq_of_toNat_eq ?_
  rw [toNat_new, hbyte hi, hbyte hj, hbyte hk, hbyte hl]
  have hzero : (0 : Ipv4Addr).toNat = 0 := rfl
  have hbase : (256 : Ipv4Addr).toNat = 256 := rfl
  simp only [List.foldl_cons, List.foldl_nil, BitVec.toNat_add, BitVec.toNat_mul, BitVec.toNat_ofNat,
    hzero, hbase]
  omega

/-- An address is four numbers. -/
theorem ipv4Number_some :
    ipv4Number v = some address ↔ ∃ a b c d i j k l, v.splitOn '.' = [a, b, c, d] ∧
      octet a = some i ∧ octet b = some j ∧ octet c = some k ∧ octet d = some l ∧
      address = Ipv4Addr.new (UInt8.ofNat i) (UInt8.ofNat j) (UInt8.ofNat k) (UInt8.ofNat l) := by
  unfold ipv4Number
  dsimp only
  constructor
  · intro h
    split at h
    · cases h
    · rename_i hparts
      rw [not_or, not_not, not_not, List.all_eq_true] at hparts
      split at h
      · cases h
      · rename_i hsmall
        obtain ⟨hlength, htexts⟩ := hparts
        rcases hsplit : v.splitOn '.' with _ | ⟨a, _ | ⟨b, _ | ⟨c, _ | ⟨d, _ | ⟨e, rest⟩⟩⟩⟩⟩ <;>
          rw [hsplit] at hlength htexts hsmall h
        · cases hlength
        · cases hlength
        · cases hlength
        · cases hlength
        · have hoctet : ∀ part ∈ [a, b, c, d],
              octet part = some ((Text.parseDigits part).getD 0) := by
            intro part hpart
            have htext := htexts part hpart
            obtain ⟨hne, -, hdigits⟩ := isOctetText_iff.mp htext
            refine octet_some.mpr ⟨htext, ?_, ?_⟩
            · rw [parseDigits_of_digits hne hdigits]
              rfl
            · by_contra hbig
              refine hsmall (List.any_eq_true.mpr ⟨_, List.mem_map.mpr ⟨part, hpart, rfl⟩, ?_⟩)
              exact decide_eq_true (Nat.not_le.mp hbig)
          have ha := hoctet a (by simp)
          have hb := hoctet b (by simp)
          have hc := hoctet c (by simp)
          have hd := hoctet d (by simp)
          refine ⟨a, b, c, d, _, _, _, _, rfl, ha, hb, hc, hd, ?_⟩
          rw [← Option.some.inj h]
          exact number_eq (octet_some.mp ha).2.2 (octet_some.mp hb).2.2 (octet_some.mp hc).2.2
            (octet_some.mp hd).2.2
        · cases hlength
  · rintro ⟨a, b, c, d, i, j, k, l, hsplit, ha, hb, hc, hd, rfl⟩
    obtain ⟨hta, hna, hia⟩ := octet_some.mp ha
    obtain ⟨htb, hnb, hib⟩ := octet_some.mp hb
    obtain ⟨htc, hnc, hic⟩ := octet_some.mp hc
    obtain ⟨htd, hnd, hid⟩ := octet_some.mp hd
    rw [hsplit, if_neg, if_neg]
    · rw [← number_eq hia hib hic hid]
      simp only [List.map_cons, List.map_nil, hna, hnb, hnc, hnd, Option.getD_some]
    · simp only [List.map_cons, List.map_nil, hna, hnb, hnc, hnd, Option.getD_some, List.any_cons,
        List.any_nil, Bool.or_eq_true, decide_eq_true_eq, Bool.false_eq_true, or_false, not_or,
        Nat.not_lt]
      exact ⟨hia, hib, hic, hid⟩
    · simp only [List.all_cons, List.all_nil, hta, htb, htc, htd]
      rintro (hlength | hall)
      · exact hlength rfl
      · exact hall rfl

/-- The server reads an address as the console does, if it has no leading zero. -/
theorem parseIpv4_iff :
    Text.parseIpv4 v = some address ↔ ipv4Number v = some address ∧ Canonical v := by
  rw [ipv4Number_some]
  unfold Text.parseIpv4 Canonical
  have hparts : v.splitOnP (· == '.') = v.splitOn '.' := rfl
  rw [hparts]
  constructor
  · intro h
    split at h
    · rename_i a b c d hsplit
      have hread : ∀ {part : Text} {o : UInt8}, Text.parseOctet part = some o →
          ¬ LeadingZero part ∧ ∃ n, octet part = some n ∧ o = UInt8.ofNat n := by
        intro part o ho
        rw [parseOctet_eq] at ho
        split at ho
        · cases ho
        · rename_i hzero
          obtain ⟨n, hn, rfl⟩ := Option.map_eq_some_iff.mp ho
          exact ⟨hzero, n, hn, rfl⟩
      obtain ⟨oa, hoa, h⟩ := Option.bind_eq_some_iff.mp h
      obtain ⟨ob, hob, h⟩ := Option.bind_eq_some_iff.mp h
      obtain ⟨oc, hoc, h⟩ := Option.bind_eq_some_iff.mp h
      obtain ⟨od, hod, h⟩ := Option.bind_eq_some_iff.mp h
      obtain ⟨hza, i, hi, rfl⟩ := hread hoa
      obtain ⟨hzb, j, hj, rfl⟩ := hread hob
      obtain ⟨hzc, k, hk, rfl⟩ := hread hoc
      obtain ⟨hzd, l, hl, rfl⟩ := hread hod
      refine ⟨⟨a, b, c, d, i, j, k, l, hsplit, hi, hj, hk, hl, (Option.some.inj h).symm⟩, ?_⟩
      rw [hsplit]
      simp only [List.forall_mem_cons, List.not_mem_nil, false_implies, implies_true, and_true]
      exact ⟨hza, hzb, hzc, hzd⟩
    · cases h
  · rintro ⟨⟨a, b, c, d, i, j, k, l, hsplit, ha, hb, hc, hd, rfl⟩, hcanonical⟩
    rw [hsplit] at hcanonical ⊢
    have hoctet : ∀ part ∈ [a, b, c, d], ∀ n, octet part = some n →
        Text.parseOctet part = some (UInt8.ofNat n) := by
      intro part hpart n hn
      rw [parseOctet_eq, if_neg (hcanonical part hpart), hn]
      rfl
    dsimp only
    rw [hoctet a (by simp) i ha, hoctet b (by simp) j hb, hoctet c (by simp) k hc,
      hoctet d (by simp) l hd]
    rfl

theorem intercalate_parts (t : Text) : ['.'].intercalate (t.splitOn '.') = t :=
  List.intercalate_splitOn '.'

/-- One spelling for an address. -/
theorem eq_of_ipv4Number (hv : ipv4Number v = some address) (hw : ipv4Number w = some address) :
    Canonical v → Canonical w → v = w := by
  intro hcv hcw
  obtain ⟨a, b, c, d, i, j, k, l, hsplit, ha, hb, hc, hd, heq⟩ := ipv4Number_some.mp hv
  obtain ⟨a', b', c', d', i', j', k', l', hsplit', ha', hb', hc', hd', heq'⟩ :=
    ipv4Number_some.mp hw
  have hnat := congrArg BitVec.toNat (heq.symm.trans heq')
  have hbyte : ∀ {part : Text} {n : Nat}, octet part = some n → (UInt8.ofNat n).toNat = n :=
    fun h => UInt8.toNat_ofNat_of_lt' (Nat.lt_succ_of_le (octet_some.mp h).2.2)
  have hle : ∀ {part : Text} {n : Nat}, octet part = some n → n ≤ 255 :=
    fun h => (octet_some.mp h).2.2
  rw [toNat_new, toNat_new, hbyte ha, hbyte hb, hbyte hc, hbyte hd, hbyte ha', hbyte hb',
    hbyte hc', hbyte hd'] at hnat
  have := hle hb
  have := hle hc
  have := hle hd
  have := hle hb'
  have := hle hc'
  have := hle hd'
  obtain ⟨rfl, rfl, rfl, rfl⟩ : i = i' ∧ j = j' ∧ k = k' ∧ l = l' := by omega
  unfold Canonical at hcv hcw
  rw [hsplit] at hcv
  rw [hsplit'] at hcw
  simp only [List.forall_mem_cons, List.not_mem_nil, false_implies, implies_true, and_true]
    at hcv hcw
  rw [← intercalate_parts v, ← intercalate_parts w, hsplit, hsplit',
    eq_of_octet ha ha' hcv.1 hcw.1, eq_of_octet hb hb' hcv.2.1 hcw.2.1,
    eq_of_octet hc hc' hcv.2.2.1 hcw.2.2.1, eq_of_octet hd hd' hcv.2.2.2 hcw.2.2.2]

theorem eq_of_parseIpv4 (hv : Text.parseIpv4 v = some address) :
    Text.parseIpv4 w = some address → v = w := by
  intro hw
  obtain ⟨hv, hcv⟩ := parseIpv4_iff.mp hv
  obtain ⟨hw, hcw⟩ := parseIpv4_iff.mp hw
  exact eq_of_ipv4Number hv hw hcv hcw

end Numbers

/-! ## Accepted addresses -/

section Accepted

variable {js : Runtime} {settings : Settings} {v w : Text} {address network : Ipv4Addr}
  {prefixLen : Nat}

theorem mem_of_ipv4Number (h : ipv4Number v = some address) :
    ∀ c ∈ v, c.isDigit = true ∨ c = '.' := by
  obtain ⟨a, b, c, d, i, j, k, l, hsplit, ha, hb, hc, hd, -⟩ := ipv4Number_some.mp h
  have hdigits : ∀ {part : Text} {n : Nat}, octet part = some n → ∀ x ∈ part, x.isDigit = true :=
    fun h => (isOctetText_iff.mp (octet_some.mp h).1).2.2
  rw [← intercalate_parts v, hsplit]
  intro x hx
  simp only [List.intercalate_cons_cons, List.intercalate_singleton, List.mem_append,
    List.mem_singleton] at hx
  rcases hx with (hx | hx) | (hx | hx) | (hx | hx) | hx
  · exact .inl (hdigits ha x hx)
  · exact .inr hx
  · exact .inl (hdigits hb x hx)
  · exact .inr hx
  · exact .inl (hdigits hc x hx)
  · exact .inr hx
  · exact .inl (hdigits hd x hx)

/-- Whatever the settings are. -/
theorem validateClientAddress_some (h : validateClientAddress js v settings = .ok w) :
    w = v ∧ v ≠ settings.vpnAddress ∧ ∃ address, ipv4Number v = some address := by
  unfold validateClientAddress at h
  dsimp only at h
  split at h
  · rename_i addressNumber networkNumber mask hnumber hnetwork hmask
    split at h
    · cases h
    · rename_i hrefused
      simp only [not_or] at hrefused
      exact ⟨(Except.ok.inj h).symm, hrefused.2.2.2, addressNumber, hnumber⟩
  · cases h

/-- A prefix that the server reads is a number to the console. -/
theorem number_of_parseU8 (js : Runtime) {t : Text} {n : Nat} (h : Text.parseU8 t = some n) :
    js.number t = some (n : Rat) ∧ '/' ∉ t := by
  unfold Text.parseU8 at h
  dsimp only at h
  obtain ⟨hdigits, hle⟩ := Option.filter_eq_some_iff.mp h
  have hle := of_decide_eq_true hle
  have hnumber := js.number_decimal _ n hdigits (Nat.lt_of_le_of_lt hle (by decide))
  have hall := (digits_of_parseDigits hdigits).2
  have hslash : '/' ∉ if t.head? = some '+' then t.tail else t := fun hmem =>
    absurd (hall _ hmem) (by decide)
  split at hnumber
  · rename_i hplus
    have ht : t = '+' :: t.tail := List.eq_cons_of_mem_head? hplus
    rw [if_pos hplus] at hslash
    rw [← ht] at hnumber
    refine ⟨hnumber.2, fun hmem => ?_⟩
    rw [ht] at hmem
    rcases List.mem_cons.mp hmem with hmem | hmem
    · cases hmem
    · exact hslash hmem
  · rename_i hplus
    rw [if_neg hplus] at hslash
    exact ⟨hnumber.1, hslash⟩

/-- The network that the server reads. -/
theorem split_of_cidr (js : Runtime) {value : Text} (h : Cidr value network prefixLen) :
    ∃ start length, value.splitOn '/' = [start, length] ∧ ipv4Number start = some network ∧
      js.number length = some (prefixLen : Rat) := by
  obtain ⟨start, length, hsplit, hstart, hlength⟩ := h.spelt
  obtain ⟨rfl, hslash⟩ := Text.splitOnce_some.mp hsplit
  obtain ⟨hnumber, hlast⟩ := number_of_parseU8 js hlength
  refine ⟨start, length, ?_, (parseIpv4_iff.mp hstart).1, hnumber⟩
  rw [List.splitOn_append_cons_self_of_not_mem hslash, List.splitOn_eq_singleton hlast]

/-- The mask of the server, but for the empty prefix. -/
theorem shiftMask_natCast (h : prefixLen ≤ 32) :
    shiftMask (prefixLen : Rat) =
      some (if prefixLen = 0 then BitVec.allOnes 32 else prefixMask prefixLen) := by
  have hsub : (32 - (prefixLen : Rat)) = (((32 - prefixLen : Nat) : Int) : Rat) := by
    rw [Int.cast_natCast, Nat.cast_sub h]
    rfl
  unfold shiftMask
  rw [if_pos ⟨Nat.cast_nonneg prefixLen, by exact_mod_cast h⟩, hsub, Rat.floor_intCast,
    Int.toNat_natCast]
  split
  · rename_i hzero
    rw [hzero]
    rfl
  · rename_i hpos
    rw [prefixMask, if_neg hpos, Nat.mod_eq_of_lt (by omega)]

/-- In a network that the server accepts. -/
theorem validateClientAddress_ok (hcidr : Cidr settings.vpnNetwork network prefixLen) :
    validateClientAddress js v settings = .ok w →
    ∃ address, ipv4Number v = some address ∧ ipv4InCidr address network prefixLen = true ∧
      address ≠ network ∧ address ≠ network ||| ~~~ prefixMask prefixLen := by
  intro h
  obtain ⟨start, length, hsplit, hstart, hnumber⟩ := split_of_cidr js hcidr
  unfold validateClientAddress at h
  dsimp only at h
  rw [hsplit] at h
  simp only [List.headD_cons, List.getElem?_cons_succ, List.getElem?_cons_zero, Option.bind_some,
    hstart, hnumber, shiftMask_natCast hcidr.bound] at h
  split at h
  · rename_i address network' mask hv hnetwork hmask
    obtain rfl := Option.some.inj hnetwork
    split at h
    · cases h
    · rename_i hrefused
      simp only [not_or, not_not] at hrefused
      obtain ⟨hinside, hfirst, hlast, -⟩ := hrefused
      by_cases hzero : prefixLen = 0
      · -- All ones: the address would have to be the network itself.
        rw [if_pos hzero] at hmask
        obtain rfl := Option.some.inj hmask
        rw [BitVec.and_allOnes] at hinside
        exact absurd hinside hfirst
      · rw [if_neg hzero] at hmask
        obtain rfl := Option.some.inj hmask
        rw [hcidr.canonical] at hinside hfirst hlast
        exact ⟨address, hv, beq_iff_eq.mpr hinside, hfirst, hlast⟩
  · cases h

end Accepted

/-! ## ASCII texts -/

namespace Sample

/-- The lower case of a character, if it is no letter. -/
theorem eq_of_lower {c d : Char} (hd : d.toNat < 97 ∨ 122 < d.toNat) :
    (if 'A' ≤ c ∧ c ≤ 'Z' then Char.ofNat (c.toNat + 32) else c) = d → c = d := by
  intro heq
  split at heq
  · rename_i hcapital
    have hlo : 65 ≤ c.toNat := hcapital.1
    have hhi : c.toNat ≤ 90 := hcapital.2
    have hcode := congrArg Char.toNat heq
    rw [JsText.toNat_ofNat (.inl (by omega))] at hcode
    omega
  · exact heq

theorem newline_not_mem_toAsciiLowercase {t : Text} :
    '\n' ∉ t → '\n' ∉ Text.toAsciiLowercase t := by
  intro h hmem
  obtain ⟨c, hc, heq⟩ := List.mem_map.mp hmem
  exact h (eq_of_lower (.inl (by decide)) heq ▸ hc)

theorem toAsciiLowercase_brackets {t name : Text} (hne : name ≠ []) (hname : ']' ∉ name) :
    Text.toAsciiLowercase t = '[' :: name ++ [']'] →
    ∃ inner, t = '[' :: inner ++ [']'] ∧ inner ≠ [] ∧ ']' ∉ inner := by
  intro heq
  obtain ⟨start, stop, rfl, hstart, hstop⟩ := List.map_eq_append_iff.mp heq
  obtain ⟨opening, inner, rfl, hopening, rfl⟩ := List.map_eq_cons_iff.mp hstart
  obtain ⟨closing, rfl, hclosing⟩ := List.map_eq_singleton_iff.mp hstop
  obtain rfl := eq_of_lower (.inl (by decide)) hopening
  obtain rfl := eq_of_lower (.inl (by decide)) hclosing
  refine ⟨inner, rfl, fun hnil => hne (by rw [hnil]; rfl), fun hmem => hname ?_⟩
  exact List.mem_map.mpr ⟨']', hmem, rfl⟩

/-- The functions of the language as they are for texts in ASCII. -/
def runtime : Runtime where
  toLowerCase := Text.toAsciiLowercase
  number t :=
    (Text.parseDigits (if t.head? = some '+' then t.tail else t)).map fun n : Nat => (n : Rat)
  localeCompare a b := compare (a.map Char.toNat) (b.map Char.toNat)
  toLowerCase_append := fun ascii rest _ =>
    ⟨Text.toAsciiLowercase rest, List.map_append, fun h => by rw [h]; rfl⟩
  toLowerCase_newline := fun _ => newline_not_mem_toAsciiLowercase
  toLowerCase_brackets := fun _ _ => toAsciiLowercase_brackets
  number_decimal := by
    intro digits n hdigits _
    have hhead : digits.head? ≠ some '+' := fun heq =>
      absurd ((digits_of_parseDigits hdigits).2 '+' (List.mem_of_mem_head? heq)) (by decide)
    refine ⟨?_, ?_⟩
    · rw [if_neg hhead, hdigits]
      rfl
    · rw [List.head?_cons, if_pos rfl, List.tail_cons, hdigits]
      rfl

end Sample

end Web

end AutobricksVpn
