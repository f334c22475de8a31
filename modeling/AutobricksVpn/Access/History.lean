/-
# `AutobricksVpn.Access.History` — what the log says about an entry

A session is only a record; whether it was let in properly is a question about
the past.  Four facts tie the entries of the table to the log of its moves:

    one login per serial, and its frame is the first message received    (`LoginOnce`)
    every established entry has an `established` event, every such event
    has evidence that supports it, and an authenticated entry either
    owed no login then or has an accepted login behind it                (`Proven`)
    serials in the log were handed out                                   (`Known`)
    no serial is authenticated twice                                     (`AuthOnce`)

Each is kept by every move.  Entries with different serials do not disturb one
another's history, so a move is looked at only for the entry it touches.
-/
import AutobricksVpn.Access.Table

namespace AutobricksVpn

namespace AccessEvent

def serial : AccessEvent → Nat
  | created n => n
  | established e _ => e.serial
  | received n _ => n
  | login n _ _ _ _ => n

end AccessEvent

def receivedOf (n : Nat) : AccessEvent → Option Packet
  | .received m packet => if m = n then some packet else none
  | _ => none

def loginOf (n : Nat) : AccessEvent → Option Packet
  | .login m _ frame _ _ => if m = n then some frame else none
  | _ => none

/-- The messages read from session `n`, in order. -/
def receivedBy (n : Nat) (tr : List AccessEvent) : List Packet := tr.filterMap (receivedOf n)

/-- The login messages judged for session `n`, in order. -/
def loginsOf (n : Nat) (tr : List AccessEvent) : List Packet := tr.filterMap (loginOf n)

section Projections

variable (n : Nat) (tr tr' : List AccessEvent)

@[simp] theorem receivedBy_append :
    receivedBy n (tr ++ tr') = receivedBy n tr ++ receivedBy n tr' := List.filterMap_append

@[simp] theorem loginsOf_append : loginsOf n (tr ++ tr') = loginsOf n tr ++ loginsOf n tr' :=
  List.filterMap_append

variable {n tr}

theorem receivedBy_eq_nil (h : ∀ ev ∈ tr, ev.serial ≠ n) : receivedBy n tr = [] := by
  refine List.filterMap_eq_nil_iff.mpr fun ev hev => ?_
  cases ev <;> simp only [receivedOf]
  exact if_neg (h _ hev)

theorem loginsOf_eq_nil (h : ∀ ev ∈ tr, ev.serial ≠ n) : loginsOf n tr = [] := by
  refine List.filterMap_eq_nil_iff.mpr fun ev hev => ?_
  cases ev <;> simp only [loginOf]
  exact if_neg (h _ hev)

end Projections

section Invariants

variable {cfg : ServerConfig} {rules : Rules} {k : MoveKind} {t t' : AccessTable}
  {tr evs : List AccessEvent}

/-! ## Serials in the log -/

/-- Only serials that were handed out occur in the log. -/
def Known (tr : List AccessEvent) (t : AccessTable) : Prop := ∀ ev ∈ tr, ev.serial < t.nextSerial

theorem Known.receivedBy (h : Known tr t) : receivedBy t.nextSerial tr = [] :=
  receivedBy_eq_nil fun ev hev => Nat.ne_of_lt (h ev hev)

theorem Known.loginsOf (h : Known tr t) : loginsOf t.nextSerial tr = [] :=
  loginsOf_eq_nil fun ev hev => Nat.ne_of_lt (h ev hev)

theorem Move.known (h : Move cfg rules k t t' evs) (hd : t.Distinct) (hk : Known tr t) :
    Known (tr ++ evs) t' := by
  have hold : t.nextSerial ≤ t'.nextSerial := by
    cases h <;> first | exact Nat.le_succ _ | exact Nat.le_refl _
  have hnew : ∀ ev ∈ evs, ev.serial < t'.nextSerial := by
    intro ev hev
    cases h with
    | drop _ => exact absurd hev List.not_mem_nil
    | admission _ _ _ _ =>
        rw [List.mem_singleton.mp hev]
        exact Nat.lt_succ_self _
    | @establish _ e rest _ _ _ _ _ _ ht _ _ _ _ _ _ =>
        rw [List.mem_singleton.mp hev]
        exact hd.below e (by rw [ht]; exact Multiset.mem_cons_self e rest)
    | read he _ =>
        rw [List.mem_singleton.mp hev]
        exact hd.below _ he
    | @login _ e rest _ ht _ _ _ =>
        have hlt := hd.below e (by rw [ht]; exact Multiset.mem_cons_self e rest)
        rcases List.mem_pair.mp hev with rfl | rfl <;> exact hlt
  intro ev hev
  rcases List.mem_append.mp hev with hev | hev
  · exact Nat.lt_of_lt_of_le (hk ev hev) hold
  · exact hnew ev hev

/-! ## One login, on the first message -/

structure LoginOnce (tr : List AccessEvent) (t : AccessTable) : Prop where
  once : ∀ n, (loginsOf n tr).length ≤ 1
  unattempted : ∀ e ∈ t.entries, e.loginAttempted = false → loginsOf e.serial tr = []
  silent : ∀ e ∈ t.entries, e.authenticated = false → e.loginAttempted = false →
    receivedBy e.serial tr = []
  first : ∀ n address frame credentials accepted,
    .login n address frame credentials accepted ∈ tr →
      (receivedBy n tr).head? = some frame ∧ accepted = loginAccepted credentials frame

/-- A log that grows by events of no interest here. -/
theorem LoginOnce.append_quiet (h : LoginOnce tr t) {entries : Multiset Entry}
    (hr : ∀ n, receivedBy n evs = []) (hl : ∀ n, loginsOf n evs = [])
    (hlogin : ∀ n a f c ok, AccessEvent.login n a f c ok ∉ evs)
    (hentries : ∀ e ∈ entries, (e.loginAttempted = false → loginsOf e.serial tr = []) ∧
      (e.authenticated = false → e.loginAttempted = false → receivedBy e.serial tr = []))
    (next : Nat) : LoginOnce (tr ++ evs) ⟨entries, next⟩ := by
  refine ⟨fun n => ?_, fun e he ha => ?_, fun e he hauth ha => ?_, fun n a f c ok hmem => ?_⟩
  · rw [loginsOf_append, hl, List.append_nil]
    exact h.once n
  · rw [loginsOf_append, hl, List.append_nil]
    exact (hentries e he).1 ha
  · rw [receivedBy_append, hr, List.append_nil]
    exact (hentries e he).2 hauth ha
  · rw [receivedBy_append, hr, List.append_nil]
    exact h.first n a f c ok ((List.mem_append.mp hmem).resolve_right (hlogin n a f c ok))

theorem LoginOnce.login {e : Entry} {rest : Multiset Entry} {frame : Packet}
    {credentials : Option (String × String)} (h : LoginOnce tr t) (hd : t.Distinct)
    (ht : t.entries = e ::ₘ rest) (hauth : e.authenticated = false)
    (hatt : e.loginAttempted = false) :
    LoginOnce (tr ++ [.received e.serial frame, .login e.serial e.address frame credentials
        (loginAccepted credentials frame)])
      ⟨e.logIn (loginAccepted credentials frame) ::ₘ rest, t.nextSerial⟩ := by
  have hmem : e ∈ t.entries := by rw [ht]; exact Multiset.mem_cons_self e rest
  have hnone : loginsOf e.serial tr = [] := h.unattempted e hmem hatt
  have hsilent : receivedBy e.serial tr = [] := h.silent e hmem hauth hatt
  -- The others see nothing of these two events.
  have hother : ∀ x ∈ rest, ∀ ev ∈ ([.received e.serial frame, .login e.serial e.address frame
      credentials (loginAccepted credentials frame)] : List AccessEvent), ev.serial ≠ x.serial := by
    intro x hx ev hev
    have hne := (hd.eq_of_serial ht hx).symm
    rcases List.mem_pair.mp hev with rfl | rfl <;> exact hne
  have hold : ∀ x ∈ rest, x ∈ t.entries := fun x hx => by
    rw [ht]; exact Multiset.mem_cons_of_mem hx
  refine ⟨fun n => ?_, fun x hx ha => ?_, fun x hx hxauth ha => ?_, fun n a f c ok hev => ?_⟩
  · rw [loginsOf_append]
    by_cases hn : e.serial = n
    · subst hn
      rw [hnone, List.nil_append]
      simp [AutobricksVpn.loginsOf, loginOf, List.filterMap_cons]
    · have : loginsOf n [.received e.serial frame, .login e.serial e.address frame credentials
          (loginAccepted credentials frame)] = [] := by
        simp [AutobricksVpn.loginsOf, loginOf, hn]
      rw [this, List.append_nil]
      exact h.once n
  · rcases Multiset.mem_cons.mp hx with rfl | hx
    · exact nomatch ha
    · rw [loginsOf_append, loginsOf_eq_nil (hother x hx), List.append_nil]
      exact h.unattempted x (hold x hx) ha
  · rcases Multiset.mem_cons.mp hx with rfl | hx
    · exact nomatch ha
    · rw [receivedBy_append, receivedBy_eq_nil (hother x hx), List.append_nil]
      exact h.silent x (hold x hx) hxauth ha
  · rcases List.mem_append.mp hev with hev | hev
    · obtain ⟨hhead, hok⟩ := h.first n a f c ok hev
      rw [receivedBy_append, List.head?_append, hhead]
      exact ⟨rfl, hok⟩
    · rcases List.mem_pair.mp hev with hev | hev
      · exact nomatch hev
      · obtain ⟨rfl, -, rfl, rfl, rfl⟩ := AccessEvent.login.inj hev
        rw [receivedBy_append, hsilent]
        exact ⟨by simp [receivedBy, receivedOf], rfl⟩

theorem LoginOnce.read {e : Entry} {packet : Packet} (h : LoginOnce tr t) (hd : t.Distinct)
    (he : e ∈ t.entries) (hpast : e.authenticated = true ∨ e.loginAttempted = true) :
    LoginOnce (tr ++ [.received e.serial packet]) t := by
  obtain ⟨rest, ht⟩ := Multiset.exists_cons_of_mem he
  have hl : ∀ n, loginsOf n [.received e.serial packet] = [] := fun n => rfl
  refine ⟨fun n => ?_, fun x hx ha => ?_, fun x hx hauth ha => ?_, fun n a f c ok hev => ?_⟩
  · rw [loginsOf_append, hl, List.append_nil]
    exact h.once n
  · rw [loginsOf_append, hl, List.append_nil]
    exact h.unattempted x hx ha
  · -- An entry that owes its login is not the one that was read.
    have hne : e.serial ≠ x.serial := by
      intro heq
      have hxe : x = e := by
        rw [ht] at hx
        refine (Multiset.mem_cons.mp hx).resolve_right fun hx => ?_
        exact hd.eq_of_serial ht hx heq.symm
      rw [← hxe, hauth, ha] at hpast
      exact hpast.elim Bool.false_ne_true Bool.false_ne_true
    rw [receivedBy_append, h.silent x hx hauth ha]
    simp [receivedBy, receivedOf, hne]
  · have hev : AccessEvent.login n a f c ok ∈ tr := by simpa using hev
    obtain ⟨hhead, hok⟩ := h.first n a f c ok hev
    rw [receivedBy_append, List.head?_append, hhead]
    exact ⟨rfl, hok⟩

theorem Move.loginOnce (h : Move cfg rules k t t' evs) (hd : t.Distinct) (hs : t.Staged)
    (hk : Known tr t) (hl : LoginOnce tr t) : LoginOnce (tr ++ evs) t' := by
  cases h with
  | drop hle =>
      refine hl.append_quiet (fun _ => rfl) (fun _ => rfl) (fun _ _ _ _ _ => List.not_mem_nil) ?_ _
      intro e he
      have hmem := Multiset.mem_of_le hle he
      exact ⟨hl.unattempted e hmem, hl.silent e hmem⟩
  | admission _ _ _ _ =>
      refine hl.append_quiet (fun _ => rfl) (fun _ => rfl) (fun _ _ _ _ _ => by simp) ?_ _
      intro e he
      rcases Multiset.mem_cons.mp he with rfl | he
      · exact ⟨fun _ => hk.loginsOf, fun _ _ => hk.receivedBy⟩
      · exact ⟨hl.unattempted e he, hl.silent e he⟩
  | @establish _ e rest kept _ _ _ _ _ ht hpend hle _ _ _ _ =>
      refine hl.append_quiet (fun _ => rfl) (fun _ => rfl) (fun _ _ _ _ _ => by simp) ?_ _
      have hmem : e ∈ t.entries := by rw [ht]; exact Multiset.mem_cons_self e rest
      intro x hx
      rcases Multiset.mem_cons.mp hx with rfl | hx
      · -- A pending entry was not authenticated, so nothing was read from it.
        refine ⟨hl.unattempted e hmem, fun _ hatt => hl.silent e hmem ?_ hatt⟩
        by_contra hauth
        exact Bool.false_ne_true (hpend.symm.trans ((hs e hmem).authenticated (by simpa using hauth)))
      · have hold : x ∈ t.entries := by
          rw [ht]; exact Multiset.mem_cons_of_mem (Multiset.mem_of_le hle hx)
        exact ⟨hl.unattempted x hold, hl.silent x hold⟩
  | read he hpast => exact hl.read hd he hpast
  | login ht _ hauth hatt => exact hl.login hd ht hauth hatt

/-! ## How an entry came to be established and authenticated -/

/-- The event behind an established entry, and behind its authentication. -/
structure Entry.ProvenBy (e : Entry) (tr : List AccessEvent) (e₀ : Entry) (evidence : Evidence) :
    Prop where
  mem : .established e₀ evidence ∈ tr
  serial : e₀.serial = e.serial
  peer : e₀.peer = e.peer
  address : e₀.address = e.address
  fingerprint : e₀.fingerprint = e.fingerprint
  authenticated : e.authenticated = true → e₀.authenticated = true ∨
    ∃ frame credentials, .login e.serial e.address frame credentials true ∈ tr

structure Proven (cfg : ServerConfig) (tr : List AccessEvent) (t : AccessTable) : Prop where
  supported : ∀ e evidence, .established e evidence ∈ tr → evidence.Supports cfg e
  entries : ∀ e ∈ t.entries, e.established = true → ∃ e₀ evidence, e.ProvenBy tr e₀ evidence

theorem Entry.ProvenBy.append {e e₀ : Entry} {evidence : Evidence} (h : e.ProvenBy tr e₀ evidence)
    (evs : List AccessEvent) : e.ProvenBy (tr ++ evs) e₀ evidence :=
  ⟨List.mem_append_left _ h.mem, h.serial, h.peer, h.address, h.fingerprint,
    fun ha => (h.authenticated ha).imp_right
      fun ⟨frame, c, hmem⟩ => ⟨frame, c, List.mem_append_left _ hmem⟩⟩

theorem Move.proven (h : Move cfg rules k t t' evs) (hp : Proven cfg tr t) :
    Proven cfg (tr ++ evs) t' := by
  have hold : ∀ e ∈ t.entries, e.established = true →
      ∃ e₀ evidence, e.ProvenBy (tr ++ evs) e₀ evidence := fun e he hest => by
    obtain ⟨e₀, evidence, hby⟩ := hp.entries e he hest
    exact ⟨e₀, evidence, hby.append evs⟩
  refine ⟨fun e evidence hmem => ?_, ?_⟩
  · rcases List.mem_append.mp hmem with hmem | hmem
    · exact hp.supported e evidence hmem
    · cases h with
      | establish _ _ _ _ hsup _ _ =>
          obtain ⟨rfl, rfl⟩ := AccessEvent.established.inj (List.mem_singleton.mp hmem)
          exact hsup
      | drop _ => exact absurd hmem List.not_mem_nil
      | admission _ _ _ _ => simp at hmem
      | read _ _ => simp at hmem
      | login _ _ _ _ => simp at hmem
  · cases h with
    | drop hle => exact fun e he => hold e (Multiset.mem_of_le hle he)
    | admission _ _ _ _ =>
        intro e he hest
        rcases Multiset.mem_cons.mp he with rfl | he
        · exact nomatch hest
        · exact hold e he hest
    | @establish _ e rest kept address fingerprint authenticated now evidence ht _ hle _ _ _ _ =>
        intro x hx hest
        rcases Multiset.mem_cons.mp hx with rfl | hx
        · exact ⟨_, evidence, List.mem_append_right _ (List.mem_singleton_self _), rfl, rfl, rfl,
            rfl, .inl⟩
        · exact hold x (by rw [ht]; exact Multiset.mem_cons_of_mem (Multiset.mem_of_le hle hx)) hest
    | read _ _ => exact hold
    | @login _ e rest frame ht hest _ _ =>
        intro x hx hxest
        rcases Multiset.mem_cons.mp hx with rfl | hx
        · obtain ⟨e₀, evidence, hby⟩ := hold e (by rw [ht]; exact Multiset.mem_cons_self e rest) hest
          refine ⟨e₀, evidence, hby.mem, hby.serial, hby.peer, hby.address, hby.fingerprint,
            fun hauth => .inr ⟨frame, rules.logins.lookup e.address, ?_⟩⟩
          have hok : loginAccepted (rules.logins.lookup e.address) frame = true := hauth
          refine List.mem_append_right _ (List.mem_pair.mpr (.inr ?_))
          rw [hok]
          rfl
        · exact hold x (by rw [ht]; exact Multiset.mem_cons_of_mem hx) hxest

/-! ## The order of authentication -/

/-- The serial that an event makes authenticated. -/
def authenticatedBy : AccessEvent → Option Nat
  | .established e _ => if e.authenticated then some e.serial else none
  | .login n _ _ _ accepted => if accepted then some n else none
  | .created _ => none
  | .received _ _ => none

/-- The serials in the order in which they became authenticated. -/
def authOrder (tr : List AccessEvent) : List Nat := tr.filterMap authenticatedBy

@[simp] theorem authOrder_append (tr tr' : List AccessEvent) :
    authOrder (tr ++ tr') = authOrder tr ++ authOrder tr' := List.filterMap_append

theorem Known.authOrder (h : Known tr t) : ∀ n ∈ authOrder tr, n < t.nextSerial := by
  intro n hn
  obtain ⟨ev, hev, hby⟩ := List.mem_filterMap.mp hn
  have hlt := h ev hev
  cases ev with
  | established | login =>
      simp only [authenticatedBy, Option.ite_none_right_eq_some, Option.some.injEq] at hby
      rw [← hby.2]
      exact hlt
  | created | received => exact nomatch hby

/-- No serial is authenticated twice, and of the entries those are
authenticated that the log says are. -/
structure AuthOnce (tr : List AccessEvent) (t : AccessTable) : Prop where
  nodup : (authOrder tr).Nodup
  entries : ∀ e ∈ t.entries, e.serial ∈ authOrder tr ↔ e.authenticated = true

/-- An entry that was not authenticated may become so. -/
theorem AuthOnce.replace {e e' : Entry} {rest kept : Multiset Entry} (h : AuthOnce tr t)
    (hd : t.Distinct) (ht : t.entries = e ::ₘ rest) (hk : kept ≤ rest)
    (hauth : e.authenticated = false) (hs : e'.serial = e.serial)
    (hevs : authOrder evs = if e'.authenticated then [e'.serial] else []) (n : Nat) :
    AuthOnce (tr ++ evs) ⟨e' ::ₘ kept, n⟩ := by
  have hmem : e ∈ t.entries := by rw [ht]; exact Multiset.mem_cons_self e rest
  have hold : e'.serial ∉ authOrder tr := by
    rw [hs, h.entries e hmem, hauth]
    exact Bool.false_ne_true
  have hother : ∀ x ∈ kept, x ∈ t.entries ∧ x.serial ≠ e'.serial := by
    intro x hx
    have hx := Multiset.mem_of_le hk hx
    exact ⟨by rw [ht]; exact Multiset.mem_cons_of_mem hx, hs ▸ hd.eq_of_serial ht hx⟩
  cases hauth' : e'.authenticated with
  | false =>
      rw [hauth'] at hevs
      refine ⟨by simpa [hevs] using h.nodup, fun x hx => ?_⟩
      rw [authOrder_append, hevs]
      rcases Multiset.mem_cons.mp hx with rfl | hx
      · simp [hold, hauth']
      · simpa using h.entries x (hother x hx).1
  | true =>
      rw [hauth'] at hevs
      refine ⟨?_, fun x hx => ?_⟩
      · rw [authOrder_append, hevs]
        exact List.nodup_append.mpr ⟨h.nodup, List.nodup_singleton _, by
          intro a ha b hb heq
          rw [if_pos rfl, List.mem_singleton] at hb
          exact hold (hb ▸ heq ▸ ha)⟩
      · rw [authOrder_append, hevs]
        rcases Multiset.mem_cons.mp hx with rfl | hx
        · simp [hauth']
        · obtain ⟨hx, hne⟩ := hother x hx
          simpa [hne] using h.entries x hx

theorem Move.authOnce (h : Move cfg rules k t t' evs) (hd : t.Distinct) (hs : t.Staged)
    (hk : Known tr t) (ha : AuthOnce tr t) : AuthOnce (tr ++ evs) t' := by
  cases h with
  | drop hle =>
      rw [List.append_nil]
      exact ⟨ha.nodup, fun e he => ha.entries e (Multiset.mem_of_le hle he)⟩
  | admission _ _ _ _ =>
      have hquiet : authOrder (tr ++ [.created t.nextSerial]) = authOrder tr := by
        simp [authOrder, authenticatedBy]
      refine ⟨hquiet ▸ ha.nodup, fun e he => ?_⟩
      rw [hquiet]
      rcases Multiset.mem_cons.mp he with rfl | he
      · simp only [Entry.knock, Bool.false_eq_true, iff_false]
        exact fun hmem => Nat.lt_irrefl _ (hk.authOrder _ hmem)
      · exact ha.entries e he
  | @establish _ e rest kept address fingerprint authenticated now _ ht hpend hle _ _ _ _ =>
      have hs' : (e.establish address fingerprint authenticated now).serial = e.serial := rfl
      refine ha.replace hd ht hle ?_ hs' ?_ _
      · have hmem : e ∈ t.entries := by rw [ht]; exact Multiset.mem_cons_self e rest
        by_contra hauth
        have hest := (hs e hmem).authenticated (by simpa using hauth)
        exact Bool.false_ne_true (hpend.symm.trans hest)
      · simp only [authOrder, authenticatedBy, List.filterMap_cons, List.filterMap_nil,
          Entry.establish]
        cases authenticated <;> rfl
  | read _ _ =>
      have hquiet : ∀ n packet, authOrder (tr ++ [.received n packet]) = authOrder tr := by
        simp [authOrder, authenticatedBy]
      exact ⟨hquiet _ _ ▸ ha.nodup, fun e he => by rw [hquiet]; exact ha.entries e he⟩
  | @login _ e rest frame ht _ hauth _ =>
      have hs' : (e.logIn (loginAccepted (rules.logins.lookup e.address) frame)).serial =
          e.serial := rfl
      refine ha.replace hd ht le_rfl hauth hs' ?_ _
      simp only [authOrder, authenticatedBy, List.filterMap_cons, List.filterMap_nil, Entry.logIn]
      cases loginAccepted (rules.logins.lookup e.address) frame <;> rfl

/-! ## All of it -/

/-- A table together with the log of how it came about. -/
structure Lawful (cfg : ServerConfig) (tr : List AccessEvent) (t : AccessTable) : Prop where
  distinct : t.Distinct
  bounded : t.Bounded cfg
  staged : t.Staged
  known : Known tr t
  loginOnce : LoginOnce tr t
  proven : Proven cfg tr t
  authOnce : AuthOnce tr t

theorem Move.lawful (h : Move cfg rules k t t' evs) (hl : Lawful cfg tr t) :
    Lawful cfg (tr ++ evs) t' :=
  ⟨h.distinct hl.distinct, h.bounded hl.bounded, h.staged hl.staged, h.known hl.distinct hl.known,
    h.loginOnce hl.distinct hl.staged hl.known hl.loginOnce, h.proven hl.proven,
    h.authOnce hl.distinct hl.staged hl.known hl.authOnce⟩

theorem Lawful.empty (cfg : ServerConfig) : Lawful cfg [] ⟨0, 0⟩ where
  distinct := ⟨Multiset.nodup_zero, fun _ he => absurd he (Multiset.notMem_zero _),
    Multiset.nodup_zero⟩
  bounded := ⟨Nat.zero_le _, fun _ => Nat.zero_le _, Nat.zero_le _, Nat.zero_le _⟩
  staged := fun _ he => absurd he (Multiset.notMem_zero _)
  known := fun _ hev => absurd hev List.not_mem_nil
  loginOnce := ⟨fun _ => Nat.zero_le _, fun _ he => absurd he (Multiset.notMem_zero _),
    fun _ he => absurd he (Multiset.notMem_zero _), fun _ _ _ _ _ hev => absurd hev List.not_mem_nil⟩
  proven := ⟨fun _ _ hev => absurd hev List.not_mem_nil,
    fun _ he => absurd he (Multiset.notMem_zero _)⟩
  authOnce := ⟨List.nodup_nil, fun _ he => absurd he (Multiset.notMem_zero _)⟩

end Invariants

end AutobricksVpn
