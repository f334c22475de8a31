/-
# `AutobricksVpn.Client.Keepalive` — the keepalives of a connected client

The main thread looks at the time of the last message of the server once in every
turn of its loop.  It sends a keepalive when the interval is over, a probe when
the server has been silent for `HEALTH_PROBE_INTERVAL`, another with every
`HEALTH_PROBE_RETRY_INTERVAL` of further silence, and gives up after
`SERVER_LIVENESS_TIMEOUT`.

How well it keeps to this depends on how long a turn takes.  Where no turn takes
longer than `D`, the keepalives keep their distance (`keepalives_kept`), and a
server is not given up before it has been probed (`probed_before_given_up`).
-/
import AutobricksVpn.Client.Workers

namespace AutobricksVpn

namespace ClientTunnel

/-- A turn of the loop, from one look at the server to the next, takes no longer
than `D`. -/
def Prompt (D : Duration) (s : State) : Act → Prop
  | .tick d => s.main.pc.Loops → s.shared.now + d ≤ s.main.lastCheck + D
  | _ => True

instance : DecidablePred MainPc.Loops
  | .cleanup _ _ => .isFalse id
  | .top | .check | .due _ | .decide _ | .push _ | .pushed _ | .probed | .receive
  | .receiving _ => .isTrue trivial

instance (D : Duration) (s : State) : DecidablePred (Prompt D s)
  | .tick d =>
      inferInstanceAs (Decidable (s.main.pc.Loops → s.shared.now + d ≤ s.main.lastCheck + D))
  | .interrupt | .dtlsSend _ | .udpRead _ | .tunRead _ | .decrypt _ | .tunWrite _ | .encrypt _
  | .udpWrite _ | .main => .isTrue trivial

def Event.keepaliveTime : Event → Option Instant
  | .keepalive time => some time
  | _ => none

/-- When keepalives were queued. -/
def keepalives (log : List Event) : List Instant := log.filterMap Event.keepaliveTime

/-- The keepalives queued when the server had been silent for the interval after
which it is probed. -/
def probes (activity : Instant) (log : List Event) : Nat :=
  (keepalives log).countP fun time => decide (activity + HEALTH_PROBE_INTERVAL ≤ time)

/-- How late a look can be that is followed by no further probe: every probe takes
the interval between two of them, and two turns of the loop. -/
def reach (D : Duration) (activity : Instant) (probes : Nat) : Instant :=
  activity + HEALTH_PROBE_INTERVAL + probes * (HEALTH_PROBE_RETRY_INTERVAL + 2 * D)

section Counts

variable {name : QueueName} {role : Role} {sh sh' : Shared} {D : Duration} {activity : Instant}
  {log evs : List Event} {n : Nat}

theorem keepalives_append (log log' : List Event) :
    keepalives (log ++ log') = keepalives log ++ keepalives log' :=
  List.filterMap_append

theorem probes_append (log log' : List Event) :
    probes activity (log ++ log') = probes activity log + probes activity log' := by
  rw [probes, keepalives_append, List.countP_append]
  rfl

@[simp] theorem keepalives_map (evs : List (QueueRun.Event name.Item)) :
    keepalives (evs.map (.queue name)) = [] := by
  rw [keepalives, List.filterMap_map, List.filterMap_eq_nil_iff]
  intro event _
  rfl

@[simp] theorem keepalives_offered (packet : Packet) (evs : List (QueueRun.Event name.Item)) :
    keepalives (.offered packet :: evs.map (.queue name)) = [] :=
  keepalives_map evs

/-- Only the main thread sends keepalives. -/
theorem keepalives_of_by (hby : ∀ event ∈ evs, event.By role) (hrole : role ≠ .main) :
    keepalives evs = [] := by
  rw [keepalives, List.filterMap_eq_nil_iff]
  intro event hevent
  cases event with
  | keepalive time => exact absurd (hby _ hevent) hrole
  | queue | arrived | injected | plaintext | wroteTun | offered | wroteDtls | sent | failed => rfl

theorem probes_of_keepalives (h : keepalives evs = []) : probes activity evs = 0 := by
  rw [probes, h]
  rfl

theorem le_reach (D : Duration) (activity : Instant) (n : Nat) :
    activity + HEALTH_PROBE_INTERVAL ≤ reach D activity n :=
  Nat.le_add_right _ _

theorem reach_succ (D : Duration) (activity : Instant) (n : Nat) :
    reach D activity (n + 1) = reach D activity n + HEALTH_PROBE_RETRY_INTERVAL + 2 * D := by
  rw [reach, reach, Nat.succ_mul]
  unfold Instant Duration
  omega

theorem reach_mono {n n' : Nat} (h : n ≤ n') : reach D activity n ≤ reach D activity n' :=
  Nat.add_le_add_left (Nat.mul_le_mul_right _ h) _

end Counts

/-! ## What holds between two turns -/

/-- What the clocks of the main thread have to do with each other. -/
structure State.Clocks (D : Duration) (s : State) : Prop where
  checked : s.main.lastCheck ≤ s.shared.now
  heard : s.shared.activity ≤ s.shared.now
  probed : s.main.lastProbe ≤ s.shared.now
  kept : s.main.lastKeepalive ≤ s.shared.now
  prompt : s.main.pc.Loops → s.shared.now ≤ s.main.lastCheck + D
  live : s.main.pc.Loops → s.main.lastCheck < s.shared.activity + SERVER_LIVENESS_TIMEOUT

/-- The distance between two keepalives, up to two turns of the loop. -/
def spacing (D interval : Duration) : Duration := max interval (HEALTH_PROBE_RETRY_INTERVAL + D)

/-- How far the last look is from the last keepalive. -/
def Main.Spaced (D interval : Duration) (m : Main) : Prop :=
  match m.pc with
  | .top | .check | .receive | .receiving _ => m.lastCheck ≤ m.lastKeepalive + spacing D interval
  | .due serverIdle =>
      m.lastCheck ≤ m.lastKeepalive + spacing D interval + D ∧
        (m.probing = true → HEALTH_PROBE_INTERVAL ≤ serverIdle)
  | .decide probeDue =>
      m.lastCheck ≤ m.lastKeepalive + spacing D interval + D ∧
        (probeDue = false → m.probing = true →
          m.lastCheck ≤ m.lastKeepalive + spacing D interval)
  | .push _ | .pushed _ => m.lastCheck ≤ m.lastKeepalive + spacing D interval + D
  | .probed => m.lastCheck ≤ m.lastKeepalive
  | .cleanup _ _ => True

structure State.Kept (D interval : Duration) (s : State) : Prop where
  spaced : s.main.Spaced D interval
  probing : s.main.probing = true → s.main.lastProbe ≤ s.main.lastKeepalive + D

/-- How far the last look is from the last message, by the number of probes sent
in between. -/
def Main.Reaching (D : Duration) (activity : Instant) (n : Nat) (m : Main) : Prop :=
  match m.pc with
  | .top | .check | .receive | .receiving _ => m.lastCheck ≤ reach D activity n
  | .due serverIdle =>
      m.lastCheck ≤ reach D activity n + D ∧
        (serverIdle < HEALTH_PROBE_INTERVAL → m.lastCheck ≤ reach D activity n) ∧
        (HEALTH_PROBE_INTERVAL ≤ serverIdle → activity + HEALTH_PROBE_INTERVAL ≤ m.lastCheck)
  | .decide probeDue | .push probeDue | .pushed probeDue =>
      m.lastCheck ≤ reach D activity n + D ∧
        (probeDue = false → m.lastCheck ≤ reach D activity n) ∧
        (probeDue = true → activity + HEALTH_PROBE_INTERVAL ≤ m.lastCheck)
  | .probed => m.lastCheck + D + HEALTH_PROBE_RETRY_INTERVAL ≤ reach D activity n
  | .cleanup _ _ => True

structure State.Probed (D : Duration) (log : List Event) (s : State) : Prop where
  /-- Or the server has been heard since the last look. -/
  reaching : s.main.lastCheck ≤ s.shared.activity ∨
    s.main.Reaching D s.shared.activity (probes s.shared.activity log)
  probing : s.main.probing = true →
    s.main.lastProbe + HEALTH_PROBE_RETRY_INTERVAL ≤
      reach D s.shared.activity (probes s.shared.activity log)

theorem Main.Spaced.lastCheck {D interval : Duration} {m : Main} (h : m.Spaced D interval)
    (hloops : m.pc.Loops) : m.lastCheck ≤ m.lastKeepalive + spacing D interval + D := by
  unfold Main.Spaced at h
  generalize m.pc = pc at h hloops
  cases pc with
  | top | check | receive | receiving => exact h.trans (Nat.le_add_right _ _)
  | due | decide => exact h.1
  | push | pushed => exact h
  | probed => exact h.trans ((Nat.le_add_right _ _).trans (Nat.le_add_right _ _))
  | cleanup => exact hloops.elim

/-! ## What a step does to the clocks -/

section Steps

variable {interval D : Duration} {ended : Thread → Bool} {sh sh' : Shared} {d d' : Decrypt}
  {m m' : Main} {s s' : State} {a : Act} {log evs : List Event} {n : Nat}

theorem decryptStep_activity {call : DecryptCall} :
    decryptStep sh d call = some (sh', d', evs) →
    sh'.activity = sh.activity ∨ sh'.activity = sh.now := by
  fun_cases decryptStep sh d call
  all_goals rintro ⟨⟩
  case case3 => exact .inr rfl
  case case5 hcall | case9 hcall =>
      obtain ⟨queue, -, rfl⟩ := call_some hcall
      exact .inl rfl
  all_goals exact .inl rfl

/-- What a step of the others means to the main thread. -/
structure Elsewhere (D : Duration) (s s' : State) (evs : List Event) : Prop where
  main : s'.main = s.main
  later : s.shared.now ≤ s'.shared.now
  prompt : s.main.pc.Loops → s'.shared.now ≤ s.shared.now ∨
    s'.shared.now ≤ s.main.lastCheck + D
  activity : s'.shared.activity = s.shared.activity ∨ s'.shared.activity = s'.shared.now
  keepalives : keepalives evs = []

theorem MainEffect.now {pc pc' : MainPc} (h : MainEffect ended sh pc sh' pc' evs) :
    sh'.now = sh.now := by
  cases h with
  | work _ _ hquiet | leave _ hquiet _ => exact hquiet.now
  | receive => rfl
  | cleanup hstep => exact (cleanupStep_frame hstep).now

/-- No thread moves the clock. -/
theorem StepEffect.now {role : Role} (h : StepEffect s role s' evs) (hrole : role ≠ .outside) :
    s'.shared.now = s.shared.now := by
  cases h with
  | tick | interrupt => exact absurd rfl hrole
  | dtlsSend hcall =>
      have hframe : Frame .wolfSsl s.shared _ _ := call_frame hcall rfl
      exact hframe.now
  | worker heffect => exact heffect.frame.now
  | main heffect => exact heffect.now

theorem step_activity :
    step interval s a = some (s', evs) →
    s'.shared.activity = s.shared.activity ∨ s'.shared.activity = s.shared.now := by
  intro h
  by_cases hrole : a.role = .worker .decrypt
  · obtain ⟨call, rfl⟩ := Act.decrypt_of_role hrole
    exact decryptStep_activity (step_decrypt h)
  · exact .inl ((step_carries h).activity hrole)

theorem step_elsewhere (hprompt : Prompt D s a) (ha : a.role ≠ .main) :
    step interval s a = some (s', evs) → Elsewhere D s s' evs := by
  intro h
  have hmain := (step_untouched h).main ha
  have hkeepalives := keepalives_of_by (step_carries h).by_role ha
  cases a with
  | tick d =>
      obtain ⟨rfl, rfl⟩ := Prod.mk.inj (Option.some.inj h)
      exact ⟨rfl, Nat.le_add_right _ _, fun hloops => .inr (hprompt hloops), .inl rfl, rfl⟩
  | interrupt =>
      obtain ⟨rfl, rfl⟩ := Prod.mk.inj (Option.some.inj h)
      exact ⟨rfl, Nat.le_refl _, fun _ => .inl (Nat.le_refl _), .inl rfl, rfl⟩
  | dtlsSend | udpRead | tunRead | decrypt | tunWrite | encrypt | udpWrite | main =>
      have hnow : s'.shared.now = s.shared.now := (step_effect h).now (by simp [Act.role])
      refine ⟨hmain, hnow.ge, fun _ => .inl hnow.le, ?_, hkeepalives⟩
      rw [hnow]
      exact step_activity h

/-! ## Steps of the others -/

theorem Elsewhere.clocks (h : Elsewhere D s s' evs) (hs : s.Clocks D) : s'.Clocks D := by
  have hlater := h.later
  have hheard := hs.heard
  have hactivity : s.shared.activity ≤ s'.shared.activity ∧ s'.shared.activity ≤ s'.shared.now := by
    rcases h.activity with hactivity | hactivity <;> rw [hactivity]
    · exact ⟨Nat.le_refl _, hheard.trans hlater⟩
    · exact ⟨hheard.trans hlater, Nat.le_refl _⟩
  refine ⟨?_, hactivity.2, ?_, ?_, ?_, ?_⟩
  all_goals rw [h.main]
  · exact hs.checked.trans hlater
  · exact hs.probed.trans hlater
  · exact hs.kept.trans hlater
  · intro hloops
    exact (h.prompt hloops).elim (fun hle => hle.trans (hs.prompt hloops)) id
  · intro hloops
    exact (hs.live hloops).trans_le (Nat.add_le_add_right hactivity.1 _)

theorem Elsewhere.kept (h : Elsewhere D s s' evs) (hs : s.Kept D interval) : s'.Kept D interval := by
  constructor
  · rw [h.main]
    exact hs.spaced
  · rw [h.main]
    exact hs.probing

theorem Elsewhere.probed (h : Elsewhere D s s' evs) (hclocks : s.Clocks D) (hs : s.Probed D log) :
    s'.Probed D (log ++ evs) := by
  have hprobes (activity : Instant) : probes activity (log ++ evs) = probes activity log := by
    rw [probes_append, probes_of_keepalives h.keepalives, Nat.add_zero]
  rcases h.activity with hactivity | hactivity
  · constructor
    all_goals rw [h.main, hactivity, hprobes]
    · exact hs.reaching
    · exact hs.probing
  · -- a message of the server makes good for every delay
    have hlater := h.later
    constructor
    all_goals rw [h.main, hactivity]
    · exact .inl (hclocks.checked.trans hlater)
    · intro _
      refine le_trans ?_ (le_reach D s'.shared.now _)
      exact Nat.add_le_add (hclocks.probed.trans hlater) (by decide)

/-! ## Steps of the main thread -/

/-- What a step of the main thread does to its clocks. -/
structure Look (sh : Shared) (m m' : Main) : Prop where
  probed : m'.lastProbe = m.lastProbe ∨ m'.lastProbe = sh.now
  kept : m'.lastKeepalive = m.lastKeepalive ∨ m'.lastKeepalive = sh.now
  checked : (m'.lastCheck = m.lastCheck ∧ (m'.pc.Loops → m.pc.Loops)) ∨
    (m'.lastCheck = sh.now ∧
      (m'.pc.Loops → sh.now < sh.activity + SERVER_LIVENESS_TIMEOUT))

theorem mainStep_look :
    mainStep interval ended sh m = some (sh', m', evs) → Look sh m m' := by
  fun_cases mainStep interval ended sh m
  all_goals rintro ⟨⟩
  case case2 hpc _ => exact ⟨.inl rfl, .inl rfl, .inr ⟨rfl, fun hloops => hloops.elim⟩⟩
  case case3 hpc hlive =>
      refine ⟨.inl rfl, .inl rfl, .inr ⟨rfl, fun _ => ?_⟩⟩
      unfold Instant Duration at *
      omega
  case case9 probeDue hpc => exact ⟨.inl rfl, .inr rfl, .inl ⟨rfl, fun _ => hpc ▸ trivial⟩⟩
  case case10 hpc => exact ⟨.inr rfl, .inl rfl, .inl ⟨rfl, fun _ => hpc ▸ trivial⟩⟩
  case case17 hpc hstep => exact ⟨.inl rfl, .inl rfl, .inl ⟨rfl, fun hloops => hloops.elim⟩⟩
  case case1 hpc | case8 hpc _ _ _ =>
      split <;> exact ⟨.inl rfl, .inl rfl, .inl ⟨rfl, fun _ => hpc ▸ trivial⟩⟩
  case case4 hpc | case5 hpc _ | case6 hpc _ | case11 hpc | case12 hpc _ _ _ | case13 hpc _ _ =>
      exact ⟨.inl rfl, .inl rfl, .inl ⟨rfl, fun _ => hpc ▸ trivial⟩⟩

theorem probing_of_not_probeDue {now : Instant} {serverIdle : Duration}
    (h : m.probeDue now serverIdle = false) (hidle : HEALTH_PROBE_INTERVAL ≤ serverIdle) :
    m.probing = true ∧ now < m.lastProbe + HEALTH_PROBE_RETRY_INTERVAL := by
  simp only [Main.probeDue, decide_eq_true hidle, Bool.true_and, Bool.or_eq_false_iff,
    Bool.not_eq_false', decide_eq_false_iff_not] at h
  obtain ⟨hprobing, hretry⟩ := h
  refine ⟨hprobing, ?_⟩
  unfold Instant Duration at *
  omega

theorem idle_of_probeDue {now : Instant} {serverIdle : Duration}
    (h : m.probeDue now serverIdle = true) : HEALTH_PROBE_INTERVAL ≤ serverIdle :=
  of_decide_eq_true (Bool.and_eq_true_iff.mp h).1

theorem not_keepaliveDue {now : Instant} (h : m.keepaliveDue interval now = false)
    (hprobing : m.probing = false) : now < m.lastKeepalive + interval := by
  simp only [Main.keepaliveDue, hprobing, Bool.not_false, Bool.true_and,
    decide_eq_false_iff_not] at h
  unfold Instant Duration at *
  omega

theorem mainStep_spaced (hclocks : s.Clocks D) (hs : s.Kept D interval) :
    mainStep interval s.ended s.shared s.main = some (sh', m', evs) →
    m'.Spaced D interval ∧ (m'.probing = true → m'.lastProbe ≤ m'.lastKeepalive + D) := by
  obtain ⟨hspaced, hprobing⟩ := hs
  have hinterval : interval ≤ spacing D interval := Nat.le_max_left _ _
  have hretry : HEALTH_PROBE_RETRY_INTERVAL + D ≤ spacing D interval := Nat.le_max_right _ _
  have hchecked := hclocks.checked
  have hprompt := hclocks.prompt
  fun_cases mainStep interval s.ended s.shared s.main
  all_goals rintro ⟨⟩
  case case1 hpc =>
      simp only [Main.Spaced, hpc] at hspaced
      split
      · exact ⟨hspaced, hprobing⟩
      · exact ⟨trivial, hprobing⟩
  case case2 | case12 | case17 => exact ⟨trivial, hprobing⟩
  case case3 hpc _ =>
      have hnow := hprompt (hpc ▸ trivial)
      simp only [Main.Spaced, hpc] at hspaced
      refine ⟨⟨hnow.trans (Nat.add_le_add_right hspaced D), fun hstill => ?_⟩, fun hstill => ?_⟩
      · have hidle := (Bool.and_eq_true_iff.mp hstill).2
        exact Nat.not_lt.mp (of_decide_eq_false ((Bool.not_eq_true' _).mp hidle))
      · exact hprobing (Bool.and_eq_true_iff.mp hstill).1
  case case4 serverIdle hpc =>
      simp only [Main.Spaced, hpc] at hspaced
      refine ⟨⟨hspaced.1, fun hnot hstill => ?_⟩, hprobing⟩
      obtain ⟨-, hnow⟩ := probing_of_not_probeDue hnot (hspaced.2 hstill)
      have hlast := hprobing hstill
      unfold Instant Duration at *
      dsimp only
      omega
  case case5 hpc _ =>
      simp only [Main.Spaced, hpc] at hspaced
      exact ⟨hspaced.1, hprobing⟩
  case case6 probeDue hpc hdue =>
      simp only [Main.Spaced, hpc] at hspaced
      rw [Bool.not_eq_true, Bool.or_eq_false_iff] at hdue
      refine ⟨?_, hprobing⟩
      cases hstill : s.main.probing with
      | true => exact hspaced.2 hdue.1 hstill
      | false =>
          have hnow := not_keepaliveDue hdue.2 hstill
          exact (hchecked.trans hnow.le).trans (Nat.add_le_add_left hinterval _)
  case case8 hpc _ _ hcall =>
      simp only [Main.Spaced, hpc] at hspaced
      split
      · exact ⟨trivial, hprobing⟩
      · exact ⟨hspaced, hprobing⟩
  case case9 probeDue hpc =>
      have hlast : s.main.probing = true → s.main.lastProbe ≤ s.shared.now + D := fun _ =>
        hclocks.probed.trans (Nat.le_add_right _ D)
      cases probeDue with
      | true => exact ⟨hchecked, hlast⟩
      | false => exact ⟨hchecked.trans (Nat.le_add_right _ _), hlast⟩
  case case10 hpc =>
      have hnow := hprompt (hpc ▸ trivial)
      simp only [Main.Spaced, hpc] at hspaced
      exact ⟨hspaced.trans (Nat.le_add_right _ _),
        fun _ => hnow.trans (Nat.add_le_add_right hspaced D)⟩
  case case11 hpc | case13 hpc _ _ =>
      simp only [Main.Spaced, hpc] at hspaced
      exact ⟨hspaced, hprobing⟩

theorem keepalives_singleton (time : Instant) : keepalives [.keepalive time] = [time] := rfl

theorem probes_keepalive {activity time : Instant} (h : activity + HEALTH_PROBE_INTERVAL ≤ time) :
    probes activity [.keepalive time] = 1 := by
  rw [probes, keepalives_singleton, List.countP_singleton, decide_eq_true h]
  rfl

/-- The events of a step count for at most one probe, and do not reduce the number. -/
theorem reach_append (D : Duration) (activity : Instant) (log evs : List Event) :
    reach D activity (probes activity log) ≤ reach D activity (probes activity (log ++ evs)) := by
  rw [probes_append]
  exact reach_mono (Nat.le_add_right _ _)

theorem mainStep_probed (hD : D + HEALTH_PROBE_RETRY_INTERVAL ≤ HEALTH_PROBE_INTERVAL)
    (hclocks : s.Clocks D) (hs : s.Probed D log) :
    mainStep interval s.ended s.shared s.main = some (sh', m', evs) →
    (m'.lastCheck ≤ s.shared.activity ∨
      m'.Reaching D s.shared.activity (probes s.shared.activity (log ++ evs))) ∧
      (m'.probing = true → m'.lastProbe + HEALTH_PROBE_RETRY_INTERVAL ≤
        reach D s.shared.activity (probes s.shared.activity (log ++ evs))) := by
  intro hstep
  have hgrow := reach_append D s.shared.activity log evs
  have hreaching := hs.reaching
  have hprobing := fun hstill => (hs.probing hstill).trans hgrow
  have hidle := le_reach D s.shared.activity (probes s.shared.activity log)
  have hchecked := hclocks.checked
  have hprompt := hclocks.prompt
  revert hstep
  fun_cases mainStep interval s.ended s.shared s.main
  all_goals rintro ⟨⟩
  case case1 hpc =>
      simp only [Main.Reaching, hpc] at hreaching
      split
      · exact ⟨hreaching.imp_right fun hlast => hlast.trans hgrow, hprobing⟩
      · exact ⟨.inr trivial, hprobing⟩
  case case2 | case12 | case17 => exact ⟨.inr trivial, hprobing⟩
  case case3 hpc _ =>
      have hnow := hprompt (hpc ▸ trivial)
      simp only [Main.Reaching, hpc] at hreaching
      have hlast : s.main.lastCheck ≤ reach D s.shared.activity (probes s.shared.activity log) :=
        hreaching.elim (fun hheard => (hheard.trans (Nat.le_add_right _ _)).trans hidle) id
      refine ⟨.inr ⟨?_, fun hearly => ?_, fun hlate => ?_⟩, fun hstill => ?_⟩
      · exact hnow.trans (Nat.add_le_add_right (hlast.trans hgrow) D)
      · have hnear := hidle.trans hgrow
        unfold Instant Duration at *
        dsimp only
        omega
      · have hheard := hclocks.heard
        unfold Instant Duration at *
        dsimp only
        omega
      · exact hprobing (Bool.and_eq_true_iff.mp hstill).1
  case case4 serverIdle hpc =>
      simp only [Main.Reaching, hpc] at hreaching
      refine ⟨hreaching.imp_right fun hlast => ⟨?_, fun hnot => ?_, fun hdue => ?_⟩, hprobing⟩
      · exact hlast.1.trans (Nat.add_le_add_right hgrow D)
      · by_cases hlate : HEALTH_PROBE_INTERVAL ≤ serverIdle
        · obtain ⟨hstill, hnow⟩ := probing_of_not_probeDue hnot hlate
          exact (hchecked.trans hnow.le).trans (hprobing hstill)
        · exact (hlast.2.1 (Nat.lt_of_not_le hlate)).trans hgrow
      · exact hlast.2.2 (idle_of_probeDue hdue)
  case case5 hpc _ =>
      simp only [Main.Reaching, hpc] at hreaching
      refine ⟨hreaching.imp_right fun hlast => ⟨?_, fun hnot => ?_, hlast.2.2⟩, hprobing⟩
      · exact hlast.1.trans (Nat.add_le_add_right hgrow D)
      · exact (hlast.2.1 hnot).trans hgrow
  case case6 probeDue hpc hdue =>
      simp only [Main.Reaching, hpc] at hreaching
      rw [Bool.not_eq_true, Bool.or_eq_false_iff] at hdue
      exact ⟨hreaching.imp_right fun hlast => (hlast.2.1 hdue.1).trans hgrow, hprobing⟩
  case case8 hpc _ _ hcall =>
      simp only [Main.Reaching, hpc] at hreaching
      split
      · exact ⟨.inr trivial, hprobing⟩
      · refine ⟨hreaching.imp_right fun hlast => ⟨?_, fun hnot => ?_, hlast.2.2⟩, hprobing⟩
        · exact hlast.1.trans (Nat.add_le_add_right hgrow D)
        · exact (hlast.2.1 hnot).trans hgrow
  case case9 probeDue hpc =>
      simp only [Main.Reaching, hpc] at hreaching
      refine ⟨hreaching.imp_right fun hlast => ?_, hprobing⟩
      cases probeDue with
      | false => exact (hlast.2.1 rfl).trans hgrow
      | true =>
          have hprobe := probes_keepalive ((hlast.2.2 rfl).trans hchecked)
          have hnext : reach D s.shared.activity
              (probes s.shared.activity (log ++ [.keepalive s.shared.now])) =
              reach D s.shared.activity (probes s.shared.activity log) +
                HEALTH_PROBE_RETRY_INTERVAL + 2 * D := by
            rw [probes_append, hprobe, reach_succ]
          have hfar := hlast.1
          show s.main.lastCheck + D + HEALTH_PROBE_RETRY_INTERVAL ≤ reach D s.shared.activity _
          rw [hnext]
          unfold Instant Duration at *
          omega
  case case10 hpc =>
      have hnow := hprompt (hpc ▸ trivial)
      simp only [Main.Reaching, hpc] at hreaching
      refine ⟨hreaching.imp_right fun hlast => ?_, fun _ => ?_⟩
      · refine le_trans ?_ (hlast.trans hgrow)
        exact (Nat.le_add_right _ _).trans (Nat.le_add_right _ _)
      · have hnear := hidle.trans hgrow
        unfold Instant Duration at *
        dsimp only
        omega
  case case11 hpc | case13 hpc _ _ =>
      simp only [Main.Reaching, hpc] at hreaching
      exact ⟨hreaching.imp_right fun hlast => hlast.trans hgrow, hprobing⟩

theorem mainStep_lastKeepalive :
    mainStep interval ended sh m = some (sh', m', evs) →
    m'.lastKeepalive = m.lastKeepalive ∨ m'.lastKeepalive ∈ keepalives evs := by
  fun_cases mainStep interval ended sh m
  all_goals rintro ⟨⟩
  case case9 => exact .inr (List.mem_singleton_self _)
  case case1 | case8 => split <;> exact .inl rfl
  all_goals exact .inl rfl

theorem Look.clocks (h : Look s.shared s.main s'.main) (hnow : s'.shared.now = s.shared.now)
    (hactivity : s'.shared.activity = s.shared.activity) (hs : s.Clocks D) : s'.Clocks D := by
  obtain ⟨hprobed, hkept, hchecked⟩ := h
  refine ⟨?_, ?_, ?_, ?_, ?_, ?_⟩
  · rw [hnow]
    rcases hchecked with ⟨hchecked, -⟩ | ⟨hchecked, -⟩ <;> rw [hchecked]
    exact hs.checked
  · rw [hnow, hactivity]
    exact hs.heard
  · rw [hnow]
    rcases hprobed with hprobed | hprobed <;> rw [hprobed]
    exact hs.probed
  · rw [hnow]
    rcases hkept with hkept | hkept <;> rw [hkept]
    exact hs.kept
  · rw [hnow]
    rcases hchecked with ⟨hchecked, hloops⟩ | ⟨hchecked, -⟩ <;> rw [hchecked]
    · exact fun hloops' => hs.prompt (hloops hloops')
    · exact fun _ => Nat.le_add_right _ D
  · rw [hactivity]
    rcases hchecked with ⟨hchecked, hloops⟩ | ⟨hchecked, hlive⟩ <;> rw [hchecked]
    · exact fun hloops' => hs.live (hloops hloops')
    · exact hlive

end Steps

/-! ## Runs -/

section Runs

variable {configured D : Duration} {running : Bool} {now : Instant} {as : List Act}
  {log evs : List Event} {s s' : State}

theorem run_clocks (h : (machine configured running now).Run (Prompt D) as log s) :
    s.Clocks D := by
  refine h.invariant (fun _ s => s.Clocks D) ?_ fun {log s a s' evs} hs hprompt hstep => ?_
  · exact ⟨Nat.le_refl _, Nat.le_refl _, Nat.le_refl _, Nat.le_refl _,
      fun _ => Nat.le_add_right _ D, fun _ => Nat.lt_add_of_pos_right (by decide)⟩
  · have hstep : step (effectiveKeepaliveInterval configured) s a = some (s', evs) := hstep
    by_cases ha : a.role = .main
    · obtain rfl := Act.main_of_role ha
      have hactivity := (step_carries hstep).activity (by rw [ha]; decide)
      have hnow := (step_effect hstep).now (by rw [ha]; decide)
      exact (mainStep_look (step_main hstep)).clocks hnow hactivity hs
    · exact (step_elsewhere hprompt ha hstep).clocks hs

theorem run_lastKeepalive {G : State → Act → Prop}
    (h : (machine configured running now).Run G as log s) :
    s.main.lastKeepalive ∈ now :: keepalives log := by
  refine h.invariant (fun log s => s.main.lastKeepalive ∈ now :: keepalives log)
    List.mem_cons_self fun {log s a s' evs} hs _ hstep => ?_
  rw [keepalives_append, ← List.cons_append, List.mem_append]
  by_cases ha : a.role = .main
  · obtain rfl := Act.main_of_role ha
    rcases mainStep_lastKeepalive (step_main hstep) with hlast | hlast
    · exact .inl (hlast ▸ hs)
    · exact .inr hlast
  · rw [(step_untouched hstep).main ha]
    exact .inl hs

theorem run_kept (h : (machine configured running now).Run (Prompt D) as log s) :
    s.Kept D (effectiveKeepaliveInterval configured) := by
  refine h.invariant₂ (fun _ s => s.Clocks D)
    (fun _ s => s.Kept D (effectiveKeepaliveInterval configured)) (fun h => run_clocks h) ?_
    fun {log s a s' evs} hclocks hs hprompt hstep => ?_
  · exact ⟨Nat.le_add_right _ _, fun hstill => by cases hstill⟩
  · by_cases ha : a.role = .main
    · obtain rfl := Act.main_of_role ha
      obtain ⟨hspaced, hprobing⟩ := mainStep_spaced hclocks hs (step_main hstep)
      exact ⟨hspaced, hprobing⟩
    · exact (step_elsewhere hprompt ha hstep).kept hs

theorem run_probed (hD : D + HEALTH_PROBE_RETRY_INTERVAL ≤ HEALTH_PROBE_INTERVAL)
    (h : (machine configured running now).Run (Prompt D) as log s) : s.Probed D log := by
  refine h.invariant₂ (fun _ s => s.Clocks D) (fun log s => s.Probed D log)
    (fun h => run_clocks h) ?_ fun {log s a s' evs} hclocks hs hprompt hstep => ?_
  · exact ⟨.inl (Nat.le_refl _), fun hstill => by cases hstill⟩
  · have hstep : step (effectiveKeepaliveInterval configured) s a = some (s', evs) := hstep
    by_cases ha : a.role = .main
    · obtain rfl := Act.main_of_role ha
      have hactivity := (step_carries hstep).activity (by rw [ha]; decide)
      obtain ⟨hreaching, hprobing⟩ := mainStep_probed hD hclocks hs (step_main hstep)
      rw [← hactivity] at hreaching hprobing
      exact ⟨hreaching, hprobing⟩
    · exact (step_elsewhere hprompt ha hstep).probed hclocks hs

/-- As long as the main thread loops, the server has been heard within the liveness
timeout, and a keepalive has been queued within the effective interval, each but for
the time of its turns. -/
theorem keepalives_kept (h : (machine configured running now).Run (Prompt D) as log s)
    (hloops : s.main.pc.Loops) :
    s.shared.now < s.shared.activity + SERVER_LIVENESS_TIMEOUT + D ∧
      ∃ time ∈ now :: keepalives log, s.shared.now ≤ time + spacing D
        (effectiveKeepaliveInterval configured) + 2 * D := by
  have hclocks := run_clocks h
  have hnow := hclocks.prompt hloops
  have hlive := hclocks.live hloops
  have hspaced := (run_kept h).spaced
  refine ⟨?_, s.main.lastKeepalive, run_lastKeepalive h, ?_⟩
  · unfold Instant Duration at *
    omega
  · have hlast := hspaced.lastCheck hloops
    unfold Instant Duration at *
    omega

/-- A turn of the loop in which a look at the server is all that is done. -/
def idleTurn : List Act :=
  [.main, .main, .main, .main, .main, .tick (Duration.fromSecs 2), .main]

/-- A turn in which a probe is sent. -/
def probingTurn : List Act :=
  [.main, .main, .main, .main, .main, .main, .main, .main, .tick (Duration.fromSecs 2), .main]

/-- The server is silent from the start, and is probed twice. -/
def unanswered : State × List Event :=
  (machine (Duration.fromSecs 25) true 0).outcome
    (fun s a => decide (Prompt (Duration.fromSecs 2) s a))
    ((List.replicate 10 idleTurn).flatten ++ (List.replicate 2 probingTurn).flatten ++ [.main])

theorem unanswered_run :
    (machine (Duration.fromSecs 25) true 0).Run (Prompt (Duration.fromSecs 2))
      ((List.replicate 10 idleTurn).flatten ++ (List.replicate 2 probingTurn).flatten ++ [.main])
      unanswered.2 unanswered.1 :=
  Machine.run_outcome (fun _ _ => of_decide_eq_true) (by decide +kernel)

theorem keepalives_kept_unanswered :
    unanswered.1.shared.now <
        unanswered.1.shared.activity + SERVER_LIVENESS_TIMEOUT + Duration.fromSecs 2 ∧
      ∃ time ∈ 0 :: keepalives unanswered.2, unanswered.1.shared.now ≤
        time + spacing (Duration.fromSecs 2) (effectiveKeepaliveInterval (Duration.fromSecs 25)) +
          2 * Duration.fromSecs 2 := by
  have hloops : unanswered.1.main.pc.Loops := by decide +kernel
  exact keepalives_kept unanswered_run hloops

/-- The probes before a look that finds the server silent for the liveness timeout.  Where
a turn takes so long that a probe may be late by more than the interval between two, one
turn makes up for the time that is left. -/
theorem probed_while_silent (h : (machine configured running now).Run (Prompt D) as log s)
    (hpc : s.main.pc = .check)
    (hsilent : SERVER_LIVENESS_TIMEOUT ≤ s.shared.now - s.shared.activity) :
    SERVER_LIVENESS_TIMEOUT ≤ HEALTH_PROBE_INTERVAL + D +
      probes s.shared.activity log * (HEALTH_PROBE_RETRY_INTERVAL + 2 * D) := by
  by_cases hD : D + HEALTH_PROBE_RETRY_INTERVAL ≤ HEALTH_PROBE_INTERVAL
  · have hnow := (run_clocks h).prompt (hpc ▸ trivial)
    have hlast : s.main.lastCheck ≤ reach D s.shared.activity (probes s.shared.activity log) := by
      have hreaching := (run_probed hD h).reaching
      simp only [Main.Reaching, hpc] at hreaching
      exact hreaching.elim
        (fun hheard => (hheard.trans (Nat.le_add_right _ _)).trans (le_reach _ _ _)) id
    unfold reach at hlast
    unfold Instant Duration at *
    omega
  · have hlate : SERVER_LIVENESS_TIMEOUT + HEALTH_PROBE_RETRY_INTERVAL ≤
        HEALTH_PROBE_INTERVAL + HEALTH_PROBE_INTERVAL := by decide
    unfold Duration at *
    omega

/-- The main thread gives up at its look at the clock only after the liveness timeout,
and not before it has probed the server as often as that time allows. -/
theorem probed_before_given_up
    (h : (machine configured running now).Run (Prompt D) as log s) (hpc : s.main.pc = .check)
    (hstep : (machine configured running now).step s .main = some (s', evs))
    (hleft : ¬ s'.main.pc.Loops) :
    s'.main.pc = .cleanup (.error notResponding) cleanup ∧
      SERVER_LIVENESS_TIMEOUT ≤ s.shared.now - s.shared.activity ∧
      SERVER_LIVENESS_TIMEOUT ≤ HEALTH_PROBE_INTERVAL + D +
        probes s.shared.activity log * (HEALTH_PROBE_RETRY_INTERVAL + 2 * D) := by
  have hmain := step_main hstep
  unfold mainStep at hmain
  simp only [hpc] at hmain
  split at hmain
  · rename_i hsilent
    simp only [Option.some.injEq, Prod.mk.injEq] at hmain
    obtain ⟨-, hmain, -⟩ := hmain
    exact ⟨by rw [← hmain]; rfl, hsilent, probed_while_silent h hpc hsilent⟩
  · simp only [Option.some.injEq, Prod.mk.injEq] at hmain
    obtain ⟨-, hmain, -⟩ := hmain
    rw [← hmain] at hleft
    exact absurd trivial hleft

theorem probed_before_given_up_unanswered :
    probes unanswered.1.shared.activity unanswered.2 = 2 ∧
      SERVER_LIVENESS_TIMEOUT ≤ HEALTH_PROBE_INTERVAL + Duration.fromSecs 2 +
        2 * (HEALTH_PROBE_RETRY_INTERVAL + 2 * Duration.fromSecs 2) := by
  have hpc : unanswered.1.main.pc = .check := rfl
  obtain ⟨⟨s', evs⟩, hstep⟩ : ∃ r,
      (machine (Duration.fromSecs 25) true 0).step unanswered.1 .main = some r :=
    Option.isSome_iff_exists.mp (by decide +kernel)
  have hleft : ¬ s'.main.pc.Loops := by
    have hpc' : ∀ r, (machine (Duration.fromSecs 25) true 0).step unanswered.1 .main = some r →
        ¬ r.1.main.pc.Loops := by decide +kernel
    exact hpc' _ hstep
  have hprobes : probes unanswered.1.shared.activity unanswered.2 = 2 := by decide +kernel
  have hbound := (probed_before_given_up unanswered_run hpc hstep hleft).2.2
  rw [hprobes] at hbound
  exact ⟨hprobes, hbound⟩

end Runs

end ClientTunnel

end AutobricksVpn
