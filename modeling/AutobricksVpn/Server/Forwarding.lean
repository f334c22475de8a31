/-
# `AutobricksVpn.Server.Forwarding` — the rule that lets clients reach each other

While the server runs, one rule of the system's `FORWARD` chain accepts the packets
from its TUN device to itself.  `ForwardingGuard` of `src/lib.rs` sets it: `enable`
first removes every copy of the rule that a killed server has left behind, then
inserts one, and `drop` removes it again.

Others change the chain meanwhile, and every command may fail.  The guard never
touches a rule but its own (`foreign_kept`).  Where the commands do what their manual
says and nobody else sets or removes the guard's own rule, there is one copy while the
guard is held and none once it is dropped, however many there were, and the loop of
`remove_rule` ends (`one_rule`).
-/
import AutobricksVpn.Config.Text
import AutobricksVpn.Lib.Machine

namespace AutobricksVpn

namespace Forwarding

/-- The arguments that specify a rule. -/
abbrev Rule := List Text

def forwardRule (interface network : Text) : Rule :=
  ["-i".toList, interface, "-o".toList, interface, "-s".toList, network, "-d".toList, network,
    "-m".toList, "comment".toList, "--comment".toList, "autobricks-vpn-client-forward".toList,
    "-j".toList, "ACCEPT".toList]

/-- What follows `remove_rule`. -/
inductive Next where
  /-- In `enable`. -/
  | insert
  /-- In `drop`. -/
  | done
  deriving DecidableEq

inductive Phase where
  /-- There is no guard, and nothing is known of the chain. -/
  | off
  | ipForward
  | sendRedirects
  /-- `remove_rule`, before `-C` and before `-D`. -/
  | checking (next : Next)
  | deleting (next : Next)
  | inserting
  | held
  /-- The guard has been dropped. -/
  | dropped
  deriving DecidableEq

structure State where
  rules : List Rule
  phase : Phase

/-- A command either did its work or not, and either reports success or not. -/
inductive Act where
  | enable
  | sysctl (reported : Bool)
  | check (reported : Bool)
  | delete (written reported : Bool)
  | insert (written reported : Bool)
  | release
  /-- The server is killed: nothing is dropped. -/
  | kill
  /-- Somebody else. -/
  | change (rules : List Rule)

/-- Somebody else has left these rules. -/
inductive Event where
  | changed (rules : List Rule)

def afterRemoval : Next → Phase
  | .insert => .inserting
  | .done => .dropped

section Steps

variable (own : Rule)

def step (s : State) : Act → Option (State × List Event)
  | .enable =>
      match s.phase with
      | .off | .dropped => some ({ s with phase := .ipForward }, [])
      | _ => none
  | .sysctl reported =>
      match s.phase with
      | .ipForward => some ({ s with phase := if reported then .sendRedirects else .off }, [])
      | .sendRedirects =>
          some ({ s with phase := if reported then .checking .insert else .off }, [])
      | _ => none
  | .check reported =>
      match s.phase with
      | .checking next =>
          some ({ s with phase := if reported then .deleting next else afterRemoval next }, [])
      | _ => none
  | .delete written reported =>
      match s.phase with
      | .deleting next =>
          some ({
            rules := if written then s.rules.erase own else s.rules
            phase := if reported then .checking next else afterRemoval next }, [])
      | _ => none
  | .insert written reported =>
      match s.phase with
      | .inserting =>
          -- An error drops the guard that has not been returned.
          some ({
            rules := if written then own :: s.rules else s.rules
            phase := if reported then .held else .checking .done }, [])
      | _ => none
  | .release =>
      match s.phase with
      | .held => some ({ s with phase := .checking .done }, [])
      | _ => none
  | .kill => some ({ s with phase := .off }, [])
  | .change rules => some ({ s with rules := rules }, [.changed rules])

def machine (rules : List Rule) : Machine State Act Event where
  init := { rules := rules, phase := .off }
  step := step own

end Steps

section Runs

variable {own : Rule} {rules : List Rule} {s s' : State} {a : Act} {as : List Act}
  {tr evs : List Event} {G : State → Act → Prop}

/-- The rules of others, in their order. -/
def foreign (own : Rule) (rules : List Rule) : List Rule := rules.filter (· ≠ own)

/-- The chain as somebody else left it last. -/
def lastChanged (rules : List Rule) (tr : List Event) : List Rule :=
  tr.foldl (fun _ event => match event with | .changed rules => rules) rules

theorem lastChanged_changed (rules changed : List Rule) (tr : List Event) :
    lastChanged rules (tr ++ [.changed changed]) = changed := by
  rw [lastChanged, List.foldl_append]
  rfl

theorem foreign_erase (own : Rule) (rules : List Rule) :
    foreign own (rules.erase own) = foreign own rules := by
  induction rules with
  | nil => rfl
  | cons rule rules ih =>
      by_cases hown : rule = own
      · rw [hown, List.erase_cons_head, foreign, foreign, List.filter_cons_of_neg (by simp)]
      · rw [List.erase_cons_tail (by simpa using hown), foreign, foreign,
          List.filter_cons_of_pos (by simpa using hown),
          List.filter_cons_of_pos (by simpa using hown)]
        exact congrArg (rule :: ·) ih

theorem foreign_cons (own : Rule) (rules : List Rule) :
    foreign own (own :: rules) = foreign own rules :=
  List.filter_cons_of_neg (by simp)

theorem step_foreign (h : step own s a = some (s', evs)) :
    foreign own s.rules = foreign own (lastChanged rules tr) →
    foreign own s'.rules = foreign own (lastChanged rules (tr ++ evs)) := by
  revert h
  fun_cases step own s a
  all_goals rintro ⟨⟩
  all_goals intro hs
  all_goals try rw [List.append_nil]
  case case9 written reported next hphase =>
    cases written with
    | false => exact hs
    | true => exact (foreign_erase own s.rules).trans hs
  case case11 written reported hphase =>
    cases written with
    | false => exact hs
    | true => exact (foreign_cons own s.rules).trans hs
  case case16 changed => rw [lastChanged_changed]
  all_goals exact hs

/-- Whatever fails, the rules of others stay as somebody else has left them. -/
theorem foreign_kept (h : (machine own rules).Run G as tr s) :
    foreign own s.rules = foreign own (lastChanged rules tr) :=
  h.invariant (fun tr s => foreign own s.rules = foreign own (lastChanged rules tr)) rfl
    fun hs _ hstep => step_foreign hstep hs

/-! ## One copy of the rule -/

/-- The commands do what their manual says, and nobody else sets or removes the rule
of the guard. -/
def Faithful (own : Rule) (s : State) : Act → Prop
  | .check reported => reported = true ↔ own ∈ s.rules
  | .delete written reported => reported = written ∧ (own ∈ s.rules → written = true)
  | .insert written reported => reported = written
  | .change rules => rules.count own = s.rules.count own
  | _ => True

/-- The copies of the rule, by where the guard stands. -/
def Copies (own : Rule) (s : State) : Prop :=
  match s.phase with
  | .deleting _ => own ∈ s.rules
  | .inserting | .dropped => own ∉ s.rules
  | .held => s.rules.count own = 1
  | _ => True

theorem Copies.at_phase {phase : Phase} (hphase : s.phase = phase) (h : Copies own s) :
    Copies own { s with phase := phase } :=
  hphase ▸ h

/-- A bound on the commands of the guard until it has been dropped. -/
def State.rank (own : Rule) (s : State) : Nat :=
  match s.phase with
  | .off | .dropped => 0
  | .ipForward => 2 * s.rules.count own + 7
  | .sendRedirects => 2 * s.rules.count own + 6
  | .checking .insert => 2 * s.rules.count own + 5
  | .deleting .insert => 2 * s.rules.count own + 4
  | .inserting => 4
  | .held => 3
  | .checking .done => 2 * s.rules.count own + 1
  | .deleting .done => 2 * s.rules.count own

/-- The commands of the guard. -/
def Act.command : Act → Bool
  | .sysctl _ | .check _ | .delete _ _ | .insert _ _ => true
  | _ => false

theorem mem_iff_of_count {rules rules' : List Rule} (h : rules.count own = rules'.count own) :
    own ∈ rules ↔ own ∈ rules' := by
  rw [← List.count_pos_iff, ← List.count_pos_iff, h]

theorem copies_afterRemoval {next : Next} {rules : List Rule} (h : own ∉ rules) :
    Copies own { rules := rules, phase := afterRemoval next } := by
  cases next with
  | insert | done => exact h

theorem step_copies (hfaithful : Faithful own s a) (h : step own s a = some (s', evs)) :
    Copies own s → Copies own s' := by
  revert h
  fun_cases step own s a
  all_goals rintro ⟨⟩
  all_goals intro hs
  case case1 | case2 | case13 | case15 => trivial
  case case4 reported hphase => cases reported <;> trivial
  case case5 reported hphase => cases reported <;> trivial
  case case7 reported next hphase =>
    cases reported with
    | true => exact hfaithful.mp rfl
    | false => exact copies_afterRemoval fun hmem => Bool.noConfusion (hfaithful.mpr hmem)
  case case9 written reported next hphase =>
    obtain ⟨rfl, hwritten⟩ := hfaithful
    obtain rfl := hwritten (hs.at_phase hphase)
    trivial
  case case11 written reported hphase =>
    obtain rfl : reported = written := hfaithful
    have hnone : own ∉ s.rules := hs.at_phase hphase
    cases reported with
    | false => trivial
    | true =>
        show (own :: s.rules).count own = 1
        rw [List.count_cons_self, List.count_eq_zero_of_not_mem hnone]
  case case16 changed =>
    have hmem := mem_iff_of_count hfaithful
    obtain ⟨rules, phase⟩ := s
    cases phase with
    | off | ipForward | sendRedirects | checking => trivial
    | deleting => exact hmem.mpr hs
    | inserting | dropped => exact fun h => hs (hmem.mp h)
    | held => exact Eq.trans hfaithful hs

/-- Every command lowers the rank. -/
theorem step_rank (hfaithful : Faithful own s a) (hcopies : Copies own s)
    (h : step own s a = some (s', evs)) :
    (a.command = true → s'.rank own < s.rank own) ∧
      (a.command = false → a ≠ .enable → s'.rank own ≤ s.rank own) := by
  revert h
  fun_cases step own s a
  all_goals rintro ⟨⟩
  case case1 | case2 => exact ⟨fun h => (by cases h), fun _ h => absurd rfl h⟩
  case case4 reported hphase =>
    refine ⟨fun _ => ?_, fun h => by cases h⟩
    have hrank : s.rank own = 2 * s.rules.count own + 7 := by rw [State.rank, hphase]
    rw [hrank]
    cases reported with
    | true => exact Nat.lt_succ_self _
    | false => exact Nat.succ_pos _
  case case5 reported hphase =>
    refine ⟨fun _ => ?_, fun h => by cases h⟩
    have hrank : s.rank own = 2 * s.rules.count own + 6 := by rw [State.rank, hphase]
    rw [hrank]
    cases reported with
    | true => exact Nat.lt_succ_self _
    | false => exact Nat.succ_pos _
  case case7 reported next hphase =>
    refine ⟨fun _ => ?_, fun h => by cases h⟩
    unfold State.rank
    rw [hphase]
    cases next with
    | insert =>
        cases reported with
        | true => exact Nat.lt_succ_self _
        | false =>
            show 4 < 2 * s.rules.count own + 5
            omega
    | done =>
        cases reported with
        | true => exact Nat.lt_succ_self _
        | false => exact Nat.succ_pos _
  case case9 written reported next hphase =>
    refine ⟨fun _ => ?_, fun h => by cases h⟩
    obtain ⟨rfl, hwritten⟩ := hfaithful
    have hmem : own ∈ s.rules := hcopies.at_phase hphase
    obtain rfl := hwritten hmem
    -- One copy is gone, so the next turn of the loop has two commands less.
    have hcount : (s.rules.erase own).count own = s.rules.count own - 1 := List.count_erase_self
    have hpos : 0 < s.rules.count own := List.count_pos_iff.mpr hmem
    unfold State.rank
    rw [hphase]
    cases next with
    | insert =>
        show 2 * (s.rules.erase own).count own + 5 < 2 * s.rules.count own + 4
        omega
    | done =>
        show 2 * (s.rules.erase own).count own + 1 < 2 * s.rules.count own
        omega
  case case11 written reported hphase =>
    refine ⟨fun _ => ?_, fun h => by cases h⟩
    obtain rfl : reported = written := hfaithful
    have hnone : own ∉ s.rules := hcopies.at_phase hphase
    have hrank : s.rank own = 4 := by rw [State.rank, hphase]
    rw [hrank]
    cases reported with
    | true => exact Nat.lt_succ_self 3
    | false =>
        show 2 * s.rules.count own + 1 < 4
        rw [List.count_eq_zero_of_not_mem hnone]
        decide
  case case13 hphase =>
    refine ⟨fun h => (by cases h), fun _ _ => ?_⟩
    have hone : s.rules.count own = 1 := hcopies.at_phase hphase
    have hrank : s.rank own = 3 := by rw [State.rank, hphase]
    rw [hrank]
    show 2 * s.rules.count own + 1 ≤ 3
    omega
  case case15 => exact ⟨fun h => (by cases h), fun _ _ => Nat.zero_le _⟩
  case case16 changed =>
    refine ⟨fun h => (by cases h), fun _ _ => Nat.le_of_eq ?_⟩
    have hcount : changed.count own = s.rules.count own := hfaithful
    unfold State.rank
    rw [hcount]

theorem start_copies : Copies own (machine own rules).init := trivial

theorem run_copies (h : (machine own rules).Run (Faithful own) as tr s) : Copies own s :=
  h.invariant (fun _ s => Copies own s) start_copies fun hs hfaithful hstep =>
    step_copies hfaithful hstep hs

/-- **One copy of the rule.**  There is exactly one while the guard is held and none
once it is dropped, whatever was there before; the rules of others are as somebody
else left them; and until it is enabled again the guard gives at most two commands for
each copy and seven more. -/
theorem one_rule (h : (machine own rules).Run (Faithful own) as tr s) :
    (s.phase = .held → s.rules.count own = 1) ∧ (s.phase = .dropped → own ∉ s.rules) ∧
    foreign own s.rules = foreign own (lastChanged rules tr) ∧
    ∀ bs tr' s', ((machine own rules).startedAt s).Run
      (fun s a => Faithful own s a ∧ a ≠ .enable) bs tr' s' →
      (bs.filter Act.command).length ≤ 2 * s.rules.count own + 7 := by
  have hcopies := run_copies h
  refine ⟨hcopies.at_phase, hcopies.at_phase, foreign_kept h, fun bs tr' s' hrun => ?_⟩
  obtain ⟨-, hranked⟩ := hrun.ranked (Copies own) (State.rank own) Act.command hcopies
    (fun hs hguard hstep => step_copies hguard.1 hstep hs)
    (fun hs hguard hstep => (step_rank hguard.1 hs hstep).1)
    fun hs hguard hstep hother => (step_rank hguard.1 hs hstep).2 hother hguard.2
  have hrank : s.rank own ≤ 2 * s.rules.count own + 7 := by
    unfold State.rank
    split <;> omega
  exact Nat.le_trans (Nat.le_trans (Nat.le_add_left _ _) hranked) hrank

/-- Two copies of the rule are left from servers that were killed, and a rule of
somebody else stands between them. -/
def staleActs : List Act :=
  [.enable, .sysctl true, .sysctl true, .check true, .delete true true, .check true,
    .delete true true, .check false, .insert true true]

def sampleRule : Rule := forwardRule "autobricks0".toList "10.8.1.0/24".toList

def staleRules : List Rule := [sampleRule, ["-j".toList, "DROP".toList], sampleRule]

/-- `Faithful`, as a test. -/
def State.admits (s : State) : Act → Bool
  | .check reported => reported == s.rules.contains sampleRule
  | .delete written reported => written && reported
  | .insert written reported => written && reported
  | .change _ => false
  | _ => true

theorem faithful_of_admits : s.admits a = true → Faithful sampleRule s a := by
  intro h
  cases a with
  | check reported =>
      have heq : reported = s.rules.contains sampleRule := beq_iff_eq.mp h
      show reported = true ↔ _
      rw [heq, List.contains_iff_mem]
  | delete written reported =>
      obtain ⟨hwritten, hreported⟩ := Bool.and_eq_true_iff.mp h
      exact ⟨hreported.trans hwritten.symm, fun _ => hwritten⟩
  | insert written reported =>
      obtain ⟨hwritten, hreported⟩ := Bool.and_eq_true_iff.mp h
      exact hreported.trans hwritten.symm
  | change => cases h
  | enable | sysctl | release | kill => trivial

def stale : State × List Event := (machine sampleRule staleRules).outcome State.admits staleActs

theorem one_rule_stale :
    staleRules.count sampleRule = 2 ∧ stale.1.rules.count sampleRule = 1 := by
  have hrun : (machine sampleRule staleRules).Run (Faithful sampleRule) staleActs stale.2 stale.1 :=
    Machine.run_outcome (fun _ _ => faithful_of_admits) (by decide +kernel)
  have hphase : stale.1.phase = .held := by decide +kernel
  exact ⟨by decide +kernel, (one_rule hrun).1 hphase⟩

end Runs

end Forwarding

end AutobricksVpn
