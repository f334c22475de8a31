/-
# `AutobricksVpn.Server.Winding` — a server that is told to stop does stop

Every thread looks at the flags at the top of its loop, and one turn of a loop is
a bounded number of actions (`State.rank`): the encrypt worker empties
`tun_read_queue` before it comes round, and the decrypt worker the channel of the
reloads.  So once a flag is down, `run` returns after a bounded number of actions,
as long as no datagram keeps the main thread in its inner loop (`winds_down`).

Nobody sleeps through it (`State.Kept.goesOn`).  The encrypt and the decrypt worker
are woken by the closed queues.  The UDP writer looks at the flags again between its
reading of the counter and its sleep, and the control worker finds a datagram in its
wake-up socket: both were told after `active` was cleared.
-/
import AutobricksVpn.Server.Shutdown

namespace AutobricksVpn

namespace ServerThreads

open SendPath (Reading WorkerSignal)

/-! ## Ranks -/

/-- How many packets the encrypt worker has yet to take. -/
def Shared.backlog (sh : Shared) : Nat := (sh.queues .tunRead).queue.items.length

/-- How many actions of its own a thread is from its end, at most, when a flag is
down.  A packet that is yet to come costs the encrypt worker eight. -/
def TunReadPc.rank : TunReadPc → Nat
  | .ended _ => 0
  | .leave _ => 1
  | .top | .close => 2
  | .send _ => 3
  | .store _ => 4
  | .push _ => 11
  | .read => 12
  | .poll => 13

def EncryptPc.rank (backlog : Nat) : EncryptPc → Nat
  | .ended _ => 0
  | .leave _ => 1
  | .top => 2
  | .wait _ => 3
  | .check _ _ => 4
  | .notifyFlushed _ _ => 5
  | .flush _ => 6
  | .lockFlush _ => 7
  | .tryPop _ => 8 + 8 * backlog
  | .retry _ | .observe => 9 + 8 * backlog
  | .lockRetry _ => 10 + 8 * backlog
  | .swapRetry _ => 11 + 8 * backlog
  | .notifyRouted _ => 12 + 8 * backlog
  | .route _ => 13 + 8 * backlog
  | .lockRoute _ => 14 + 8 * backlog
  | .packet _ _ => 15 + 8 * backlog

def UdpWritePc.rank : UdpWritePc → Nat
  | .ended _ => 0
  | .leave _ => 1
  | .top => 2
  | .change | .wait _ => 3
  | .request | .idle _ => 4
  | .poll | .lockLook _ => 5
  | .drain _ => 6
  | .lockDrain _ => 7
  | .observe => 8

def DecryptPc.rank (reloads : Nat) : DecryptPc → Nat
  | .ended _ => 0
  | .leave _ => 1
  | .drop _ => 2
  | .finish _ => 3
  | .top | .writeTun _ _ => 4
  | .wait _ | .handle _ => 5
  | .lockPeer _ => 6
  | .tryPop _ _ => 7
  | .errors _ _ => 8
  | .reloads _ _ => 9 + reloads
  | .dedupe _ _ => 10 + reloads
  | .lockDedupe _ _ => 11 + reloads
  | .read _ => 12 + reloads
  | .lockRead _ | .tunCall _ _ => 13 + reloads
  | .observe => 14 + reloads

def ControlPc.rank : ControlPc → Nat
  | .ended _ => 0
  | .leave _ => 1
  | .top => 2
  | .drainWake => 3
  | .poll => 4
  | .lockDeadline => 5
  | .respond => 6
  | .change _ => 7
  | .send _ => 9
  | .purge _ => 10
  | .lockPurge _ => 11
  | .decide => 12
  | .pass => 13
  | .lockPass => 14

def MainPc.rank : MainPc → Nat
  | .cleanup _ rest => rest.length
  | .top => 11
  | .recv => 12
  | .notify | .poll => 13
  | .push _ => 14

/-- What is left to do, for all threads together. -/
def State.rank (s : State) : Nat :=
  s.main.rank + s.tunRead.rank + s.encrypt.rank s.shared.backlog + s.udpWrite.rank +
    s.decrypt.rank s.shared.reloads + s.control.rank

section Ranks

variable {sh sh' : Shared} {free : Bool} {evs : List Event}

/-- The calls of the consumer, of a notifier and of a closer add nothing. -/
theorem call_shrinks {name : QueueName} {a : QueueRun.Act name.Item}
    {events : List (QueueRun.Event name.Item)} (ha : a = .tryPop ∨ a = .notifyChange ∨ a = .close) :
    sh.call name a = some (sh', events) →
    sh'.backlog ≤ sh.backlog ∧ sh'.reloads = sh.reloads := by
  intro hcall
  have hlength : (sh'.queues name).queue.items.length ≤ (sh.queues name).queue.items.length := by
    have hstep := call_self hcall
    rcases ha with rfl | rfl | rfl
    · obtain ⟨-, ⟨hq, -⟩ | ⟨x, rest, -, hq, -⟩⟩ := QueueRun.step_take (.inl rfl) hstep
      · rw [hq]
      · rw [hq]
        exact (List.tail_sublist _).length_le
    · obtain ⟨hq, -⟩ := Prod.mk.inj (Option.some.inj hstep)
      rw [← hq]
      exact Nat.le_refl _
    · obtain ⟨hq, -⟩ := Prod.mk.inj (Option.some.inj hstep)
      rw [← hq]
      show (Queue.close _).items.length ≤ _
      rw [Queue.close_items]
      exact Nat.zero_le _
  constructor
  · by_cases hname : QueueName.tunRead = name
    · subst hname
      exact hlength
    · rw [Shared.backlog, call_of_ne hname hcall, Shared.backlog]
  · obtain ⟨queue, -, rfl⟩ := call_some hcall
    rfl

theorem call_push_backlog {x : Packet} {events : List (QueueRun.Event Packet)} :
    sh.call .tunRead (.push x) = some (sh', events) → sh'.backlog ≤ sh.backlog + 1 := by
  intro hcall
  have hstep := call_self hcall
  rcases Queue.push_cases (sh.queues .tunRead).queue ((sh.queues .tunRead).pushes, x) with
    ⟨-, hp⟩ | ⟨old, rest, queue, -, -, hitems, hp, hitems', -⟩ | ⟨queue, -, -, hp, hitems', -⟩ <;>
    simp only [QueueRun.step, hp, Option.some.injEq, Prod.mk.injEq] at hstep <;>
    obtain ⟨hq, -⟩ := hstep <;> rw [Shared.backlog, ← hq, Shared.backlog]
  · exact Nat.le_succ _
  · show queue.items.length ≤ _
    rw [hitems', hitems, List.length_append, List.length_cons]
    exact Nat.le_succ _
  · show queue.items.length ≤ _
    rw [hitems', List.length_append, List.length_singleton]

/-- The encrypt worker has taken a packet, or there was none. -/
theorem call_tryPop_backlog {events : List (QueueRun.Event Packet)} :
    sh.call .tunRead .tryPop = some (sh', events) →
    popped events = none ∧ sh'.backlog = sh.backlog ∨
      ∃ packet, popped events = some packet ∧ sh.backlog = sh'.backlog + 1 := by
  intro hcall
  obtain ⟨-, ⟨hq, rfl⟩ | ⟨x, rest, hitems, hq, rfl⟩⟩ :=
    QueueRun.step_take (.inl rfl) (call_self hcall)
  · exact .inl ⟨rfl, by rw [Shared.backlog, hq, Shared.backlog]⟩
  · refine .inr ⟨x.2, rfl, ?_⟩
    rw [Shared.backlog, Shared.backlog, hq, hitems]
    show _ = (List.tail (QueueRun.Shared.queue _).items).length + 1
    rw [hitems]
    rfl

theorem tunReadStep_rank (hdown : sh.continues = false) {pc pc' : TunReadPc}
    {call : TunReadCall} :
    tunReadStep sh pc call = some (sh', pc', evs) →
    pc'.rank + 8 * (sh'.backlog - sh.backlog) < pc.rank ∧ sh'.reloads = sh.reloads := by
  fun_cases tunReadStep sh pc call
  all_goals rintro ⟨⟩
  case case1 =>
      rw [hdown, Nat.sub_self]
      exact ⟨by simp [TunReadPc.rank], rfl⟩
  case case6 packet =>
      rw [Nat.sub_self]
      refine ⟨?_, rfl⟩
      split <;> simp [TunReadPc.rank]
  case case11 sh' _ hcall =>
      have hbacklog := call_push_backlog hcall
      have hreloads := call_reloads hcall
      refine ⟨?_, hreloads⟩
      show _ + 8 * (sh'.backlog - sh.backlog) < 11
      split <;> simp only [TunReadPc.rank] <;> omega
  case case15 hcall =>
      obtain ⟨hbacklog, hreloads⟩ := call_shrinks (.inr (.inr rfl)) hcall
      rw [Nat.sub_eq_zero_of_le hbacklog]
      exact ⟨by simp [TunReadPc.rank], hreloads⟩
  all_goals
    refine ⟨?_, rfl⟩
    show _ + 8 * (sh.backlog - sh.backlog) < _
    rw [Nat.sub_self]
    simp [TunReadPc.rank]

theorem encryptStep_rank (hdown : sh.continues = false) {pc pc' : EncryptPc}
    {call : EncryptCall} :
    encryptStep free sh pc call = some (sh', pc', evs) →
    pc'.rank sh'.backlog < pc.rank sh.backlog ∧ sh'.reloads = sh.reloads := by
  fun_cases encryptStep free sh pc call
  all_goals rintro ⟨⟩
  case case1 =>
      rw [hdown]
      exact ⟨by simp [EncryptPc.rank], rfl⟩
  case case4 hcall =>
      refine ⟨?_, call_reloads hcall⟩
      rcases call_tryPop_backlog hcall with ⟨hnone, hsame⟩ | ⟨packet, hsome, hless⟩
      · rw [hnone]
        simp only [EncryptPc.rank]
        omega
      · rw [hsome]
        simp only [EncryptPc.rank]
        omega
  case case5 =>
      refine ⟨?_, rfl⟩
      split <;> simp [EncryptPc.rank]
  case case10 =>
      refine ⟨?_, rfl⟩
      show _ < 11 + 8 * sh.backlog
      split <;> simp only [EncryptPc.rank, Shared.backlog] <;> omega
  case case18 =>
      refine ⟨?_, rfl⟩
      split
      · simp [EncryptPc.rank]
      · split <;> simp [EncryptPc.rank]
  all_goals exact ⟨by simp [EncryptPc.rank, Shared.backlog], rfl⟩

theorem udpWriteStep_rank (hdown : sh.continues = false) {pc pc' : UdpWritePc}
    {call : UdpWriteCall} :
    udpWriteStep free sh pc call = some (sh', pc', evs) →
    pc'.rank < pc.rank ∧ sh'.backlog ≤ sh.backlog ∧ sh'.reloads = sh.reloads := by
  fun_cases udpWriteStep free sh pc call
  all_goals rintro ⟨⟩
  case case1 | case12 =>
      rw [hdown]
      exact ⟨by simp [UdpWritePc.rank], Nat.le_refl _, rfl⟩
  case case5 =>
      refine ⟨?_, Nat.le_refl _, rfl⟩
      split
      · simp [UdpWritePc.rank]
      · split <;> simp [UdpWritePc.rank]
  case case9 hcall => exact ⟨by simp [UdpWritePc.rank], call_shrinks (.inr (.inl rfl)) hcall⟩
  case case10 =>
      refine ⟨?_, Nat.le_refl _, rfl⟩
      split <;> simp [UdpWritePc.rank]
  all_goals exact ⟨by simp [UdpWritePc.rank], Nat.le_refl _, rfl⟩

theorem decryptStep_rank (hdown : sh.continues = false) {pc pc' : DecryptPc}
    {call : DecryptCall} :
    decryptStep free sh pc call = some (sh', pc', evs) →
    pc'.rank sh'.reloads < pc.rank sh.reloads ∧ sh'.backlog ≤ sh.backlog := by
  fun_cases decryptStep free sh pc call
  all_goals rintro ⟨⟩
  case case1 | case6 =>
      rw [hdown]
      exact ⟨by simp [DecryptPc.rank], Nat.le_refl _⟩
  case case5 | case7 | case9 | case15 =>
      exact ⟨by simp only [DecryptPc.rank]; omega, Nat.le_refl _⟩
  case case14 reloads hreloads =>
      refine ⟨?_, Nat.le_refl _⟩
      rw [hreloads]
      exact Nat.lt_succ_self _
  case case19 hcall =>
      refine ⟨?_, (call_shrinks (.inl rfl) hcall).1⟩
      show _ < 7
      split
      · simp [DecryptPc.rank]
      · split
        · simp [DecryptPc.rank]
        · split <;> simp [DecryptPc.rank]
  all_goals exact ⟨by simp [DecryptPc.rank], Nat.le_refl _⟩

theorem controlStep_rank (hdown : sh.continues = false) {pc pc' : ControlPc}
    {call : ControlCall} :
    controlStep free sh pc call = some (sh', pc', evs) →
    pc'.rank + (sh'.reloads - sh.reloads) < pc.rank ∧ sh'.backlog ≤ sh.backlog := by
  fun_cases controlStep free sh pc call
  all_goals rintro ⟨⟩
  case case1 =>
      rw [hdown, Nat.sub_self]
      exact ⟨by simp [ControlPc.rank], Nat.le_refl _⟩
  case case12 =>
      refine ⟨?_, Nat.le_refl _⟩
      simp only [ControlPc.rank]
      omega
  case case15 hcall =>
      obtain ⟨hbacklog, hreloads⟩ := call_shrinks (.inr (.inl rfl)) hcall
      refine ⟨?_, hbacklog⟩
      rw [hreloads, Nat.sub_self]
      split <;> simp [ControlPc.rank]
  case case21 =>
      rw [Nat.sub_self]
      refine ⟨?_, Nat.le_refl _⟩
      split <;> simp [ControlPc.rank]
  all_goals
    refine ⟨?_, Nat.le_refl _⟩
    show _ + (sh.reloads - sh.reloads) < _
    rw [Nat.sub_self]
    simp [ControlPc.rank]

/-- No datagram arrives. -/
def Still (_ : State) : Act → Prop
  | .main (.recv (.ok _)) => False
  | _ => True

theorem cleanupStep_shrinks {ended : Worker → Bool} {op : Cleanup} :
    cleanupStep ended sh op = some (sh', evs) →
    sh'.backlog ≤ sh.backlog ∧ sh'.reloads = sh.reloads := by
  fun_cases cleanupStep ended sh op
  all_goals rintro ⟨⟩
  case case5 hcall => exact call_shrinks (.inr (.inr rfl)) hcall
  all_goals exact ⟨Nat.le_refl _, rfl⟩

/-- The queue of the datagrams is not the encrypt worker's. -/
theorem call_udpRx_backlog {a : QueueRun.Act UdpDatagram}
    {events : List (QueueRun.Event UdpDatagram)} :
    sh.call .udpRx a = some (sh', events) → sh'.backlog = sh.backlog := by
  intro hcall
  rw [Shared.backlog, call_of_ne (by simp) hcall, Shared.backlog]

theorem mainStep_rank (hdown : sh.continues = false) {ended : Worker → Bool} {pc pc' : MainPc}
    {call : MainCall} {s : State} (hstill : Still s (.main call)) :
    mainStep ended sh pc call = some (sh', pc', evs) →
    pc'.rank < pc.rank ∧ sh'.backlog ≤ sh.backlog ∧ sh'.reloads = sh.reloads := by
  fun_cases mainStep ended sh pc call
  all_goals rintro ⟨⟩
  case case1 =>
      rw [hdown]
      exact ⟨by decide, Nat.le_refl _, rfl⟩
  case case5 => exact hstill.elim
  case case9 hcall =>
      have hbacklog := call_udpRx_backlog hcall
      have hreloads := call_reloads hcall
      refine ⟨?_, Nat.le_of_eq hbacklog, hreloads⟩
      split <;> simp [MainPc.rank, MainPc.left, cleanup]
  case case12 hop => exact ⟨Nat.lt_succ_self _, cleanupStep_shrinks hop⟩
  all_goals exact ⟨by simp [MainPc.rank, MainPc.left, cleanup], Nat.le_refl _, rfl⟩

theorem give_shrinks {notice : Notice} :
    sh.give notice = some (sh', evs) → sh'.backlog ≤ sh.backlog ∧ sh'.reloads = sh.reloads := by
  fun_cases Shared.give sh notice
  all_goals rintro ⟨⟩
  case case4 hcall => exact call_shrinks (.inr (.inl rfl)) hcall
  all_goals exact ⟨Nat.le_refl _, rfl⟩

theorem panic_rank {s s' : State} {worker : Worker} :
    s.panic worker = some s' → s'.rank < s.rank := by
  fun_cases State.panic s worker
  all_goals rintro ⟨⟩
  case case3 hleave hended =>
      have hlt : 1 < s.tunRead.rank := by
        cases hpc : s.tunRead <;>
          first | exact absurd hpc (hleave _) | exact absurd hpc (hended _) | simp [TunReadPc.rank]
      have hleft : (TunReadPc.leave (.error Worker.tunRead.panic)).rank = 1 := rfl
      simp only [State.rank]
      omega
  case case6 hleave hended =>
      have hlt : 1 < s.encrypt.rank s.shared.backlog := by
        cases hpc : s.encrypt <;>
          first
          | exact absurd hpc (hleave _)
          | exact absurd hpc (hended _)
          | simp only [EncryptPc.rank]; omega
      have hleft : EncryptPc.rank s.shared.backlog (.leave (.error Worker.encrypt.panic)) = 1 := rfl
      simp only [State.rank]
      omega
  case case9 hleave hended =>
      have hlt : 1 < s.udpWrite.rank := by
        cases hpc : s.udpWrite <;>
          first | exact absurd hpc (hleave _) | exact absurd hpc (hended _) | simp [UdpWritePc.rank]
      have hleft : (UdpWritePc.leave (.error Worker.udpWrite.panic)).rank = 1 := rfl
      simp only [State.rank]
      omega
  case case13 hdrop hleave hended =>
      have hlt : 2 < s.decrypt.rank s.shared.reloads := by
        cases hpc : s.decrypt <;>
          first
          | exact absurd hpc (hdrop _)
          | exact absurd hpc (hleave _)
          | exact absurd hpc (hended _)
          | simp only [DecryptPc.rank]; omega
      have hleft : DecryptPc.rank s.shared.reloads (.drop (.error Worker.decrypt.panic)) = 2 := rfl
      simp only [State.rank]
      omega
  case case16 hleave hended =>
      have hlt : 1 < s.control.rank := by
        cases hpc : s.control <;>
          first | exact absurd hpc (hleave _) | exact absurd hpc (hended _) | simp [ControlPc.rank]
      have hleft : (ControlPc.leave (.error Worker.control.panic)).rank = 1 := rfl
      simp only [State.rank]
      omega

theorem EncryptPc.rank_le (pc : EncryptPc) (backlog backlog' : Nat) :
    pc.rank backlog' ≤ pc.rank backlog + 8 * (backlog' - backlog) := by
  cases pc <;> simp only [EncryptPc.rank] <;> omega

theorem DecryptPc.rank_le (pc : DecryptPc) (reloads reloads' : Nat) :
    pc.rank reloads' ≤ pc.rank reloads + (reloads' - reloads) := by
  cases pc <;> simp only [DecryptPc.rank] <;> omega

/-- The actions of the threads, but for what a worker does under the lock. -/
def Act.own : Act → Bool
  | .interrupt | .inside _ _ => false
  | .panic _ | .main _ | .tunRead _ | .encrypt _ | .udpWrite _ | .decrypt _ | .control _ => true

/-- What a thread does brings the server closer to its end. -/
theorem Takes.rank {s s' : State} {a : Act} (h : Takes s a s' evs)
    (hdown : s.shared.continues = false) (hstill : Still s a) :
    (a.own = true → s'.rank < s.rank) ∧ (a.own = false → s'.rank ≤ s.rank) := by
  have hencrypt := s.encrypt.rank_le s.shared.backlog s'.shared.backlog
  have hdecrypt := s.decrypt.rank_le s.shared.reloads s'.shared.reloads
  cases h with
  | interrupt => exact ⟨fun hown => (by cases hown), fun _ => Nat.le_refl _⟩
  | panic hpanic => exact ⟨fun _ => panic_rank hpanic, fun hown => (by cases hown)⟩
  | @inside _ _ sh _ _ hgive =>
      obtain ⟨hbacklog, hreloads⟩ := give_shrinks hgive
      refine ⟨fun hown => (by cases hown), fun _ => ?_⟩
      simp only [State.rank] at hencrypt hdecrypt ⊢
      omega
  | main hstep =>
      obtain ⟨hlt, hbacklog, hreloads⟩ := mainStep_rank hdown hstill hstep
      refine ⟨fun _ => ?_, fun hown => (by cases hown)⟩
      simp only [State.rank] at hencrypt hdecrypt ⊢
      omega
  | tunRead hstep =>
      obtain ⟨hlt, hreloads⟩ := tunReadStep_rank hdown hstep
      refine ⟨fun _ => ?_, fun hown => (by cases hown)⟩
      simp only [State.rank] at hencrypt hdecrypt ⊢
      omega
  | encrypt hstep =>
      obtain ⟨hlt, hreloads⟩ := encryptStep_rank hdown hstep
      refine ⟨fun _ => ?_, fun hown => (by cases hown)⟩
      simp only [State.rank] at hdecrypt ⊢
      omega
  | udpWrite hstep =>
      obtain ⟨hlt, hbacklog, hreloads⟩ := udpWriteStep_rank hdown hstep
      refine ⟨fun _ => ?_, fun hown => (by cases hown)⟩
      simp only [State.rank] at hencrypt hdecrypt ⊢
      omega
  | decrypt hstep =>
      obtain ⟨hlt, hbacklog⟩ := decryptStep_rank hdown hstep
      refine ⟨fun _ => ?_, fun hown => (by cases hown)⟩
      simp only [State.rank] at hencrypt ⊢
      omega
  | control hstep =>
      obtain ⟨hlt, hbacklog⟩ := controlStep_rank hdown hstep
      refine ⟨fun _ => ?_, fun hown => (by cases hown)⟩
      simp only [State.rank] at hencrypt hdecrypt ⊢
      omega

theorem continues_false_iff {sh : Shared} :
    sh.continues = false ↔ sh.running = false ∨ sh.active = false :=
  Bool.and_eq_false_iff

theorem Takes.continues {s s' : State} {a : Act} (h : Takes s a s' evs) :
    s.shared.continues = false → s'.shared.continues = false := by
  intro hs
  rcases continues_false_iff.mp hs with hrunning | hactive
  · exact continues_false_iff.mpr (.inl (h.frame.running hrunning))
  · exact continues_false_iff.mpr (.inr (h.frame.active hactive))

theorem rank_le {s : State} (hs : s.Cleaned) :
    s.rank ≤ 78 + 8 * s.shared.backlog + s.shared.reloads := by
  have hmain : s.main.rank ≤ 14 := by
    cases hpc : s.main with
    | cleanup result rest =>
        obtain ⟨before, hbefore, -⟩ := hs result rest hpc
        have hsuffix : rest <:+ cleanup := ⟨before, hbefore⟩
        exact Nat.le_trans hsuffix.length_le (by decide)
    | _ => simp [MainPc.rank]
  have htunRead : s.tunRead.rank ≤ 13 := by cases s.tunRead <;> simp [TunReadPc.rank]
  have hencrypt : s.encrypt.rank s.shared.backlog ≤ 15 + 8 * s.shared.backlog := by
    cases s.encrypt <;> simp only [EncryptPc.rank] <;> omega
  have hudpWrite : s.udpWrite.rank ≤ 8 := by cases s.udpWrite <;> simp [UdpWritePc.rank]
  have hdecrypt : s.decrypt.rank s.shared.reloads ≤ 14 + s.shared.reloads := by
    cases s.decrypt <;> simp only [DecryptPc.rank] <;> omega
  have hcontrol : s.control.rank ≤ 14 := by cases s.control <;> simp [ControlPc.rank]
  rw [State.rank]
  omega

end Ranks

/-! ## Sleepers -/

/-- The reading of the counter that the UDP writer has. -/
def UdpWritePc.reading : UdpWritePc → Option Reading
  | .lockDrain observed | .drain observed | .lockLook observed | .idle observed
  | .wait observed => some observed
  | _ => none

/-- The control worker has found the flags up, and has not slept since. -/
def ControlPc.Turns : ControlPc → Prop
  | .top | .drainWake | .leave _ | .ended _ => False
  | _ => True

/-- The main thread is past this action of the cleanup. -/
def MainPc.Past (op : Cleanup) : MainPc → Prop
  | .cleanup _ rest => op ∉ rest
  | _ => False

/-- The sleepers have been told. -/
structure State.Roused (s : State) : Prop where
  reading : ∀ observed, s.udpWrite.reading = some observed →
    observed.count ≤ s.shared.progress.generation.count
  notified : s.main.Past .notify → ∀ observed, s.udpWrite = .wait observed →
    observed.count < s.shared.progress.generation.count
  woken : s.main.Past .wake → s.control.Turns → s.shared.wake = true

section Sleepers

variable {sh sh' : Shared} {free : Bool} {s s' : State} {a : Act} {evs : List Event}

theorem store_before {before rest : List Cleanup} {op : Cleanup} (h : before ++ rest = cleanup)
    (hop : op ∉ rest) : Cleanup.store ∈ before := by
  cases before with
  | nil =>
      rw [List.nil_append] at h
      exact absurd (h ▸ mem_cleanup op) hop
  | cons first before =>
      rw [(List.cons.inj h).1]
      exact List.mem_cons_self

theorem State.Cleaned.inactive (hs : s.Cleaned) {op : Cleanup} :
    s.main.Past op → s.shared.active = false := by
  intro hpast
  cases hpc : s.main with
  | cleanup result rest =>
      rw [hpc] at hpast
      obtain ⟨before, hbefore, hdone⟩ := hs result rest hpc
      exact hdone .store (store_before hbefore hpast)
  | _ => rw [hpc] at hpast; exact hpast.elim

theorem State.Cleaned.down (hs : s.Cleaned) {op : Cleanup} (hpast : s.main.Past op) :
    s.shared.continues = false :=
  continues_false_iff.mpr (.inr (hs.inactive hpast))

/-- The main thread has just done this, or had done it before. -/
theorem mainStep_past {ended : Worker → Bool} {pc pc' : MainPc} {call : MainCall} {op : Cleanup} :
    mainStep ended sh pc call = some (sh', pc', evs) → pc'.Past op →
    pc.Past op ∨ cleanupStep ended sh op = some (sh', evs) := by
  intro hstep hpast
  cases pc' with
  | cleanup result rest =>
      rcases mainStep_cleanup hstep with rfl | ⟨op', rfl, hop⟩
      · exact absurd (mem_cleanup op) hpast
      · by_cases heq : op = op'
        · subst heq
          exact .inr hop
        · exact .inl fun hmem => (List.mem_cons.mp hmem).elim heq hpast
  | _ => exact hpast.elim

theorem udpWriteStep_reading {pc pc' : UdpWritePc} {call : UdpWriteCall} {observed : Reading} :
    udpWriteStep free sh pc call = some (sh', pc', evs) → pc'.reading = some observed →
    pc.reading = some observed ∨ observed = sh'.progress.generation := by
  fun_cases udpWriteStep free sh pc call
  all_goals rintro ⟨⟩ hreading
  case case1 => split at hreading <;> cases hreading
  case case2 => exact .inr (Option.some.inj hreading).symm
  case case3 => exact .inl hreading
  case case5 =>
      split at hreading
      · cases hreading
      · split at hreading
        · cases hreading
        · exact .inl hreading
  case case10 | case12 =>
      split at hreading
      · first | exact .inl hreading | cases hreading
      · first | exact .inl hreading | cases hreading
  all_goals cases hreading

/-- The UDP writer goes to sleep only when the flags are up. -/
theorem udpWriteStep_wait (hdown : sh.continues = false) {pc pc' : UdpWritePc}
    {call : UdpWriteCall} {observed : Reading} :
    udpWriteStep free sh pc call = some (sh', pc', evs) → pc' ≠ .wait observed := by
  fun_cases udpWriteStep free sh pc call
  all_goals rintro ⟨⟩
  case case1 | case12 =>
      rw [hdown]
      simp
  case case5 =>
      split
      · simp
      · split <;> simp
  case case10 => split <;> simp
  all_goals simp

theorem controlStep_turns (hdown : sh.continues = false) {pc pc' : ControlPc}
    {call : ControlCall} :
    controlStep free sh pc call = some (sh', pc', evs) → pc'.Turns →
    pc.Turns ∧ pc ≠ .drainWake := by
  fun_cases controlStep free sh pc call
  all_goals rintro ⟨⟩ hturns
  case case1 =>
      rw [hdown] at hturns
      exact hturns.elim
  case case13 | case19 | case22 => exact hturns.elim
  case case24 => exact hturns.elim
  case case25 => exact hturns.elim
  all_goals exact ⟨trivial, by simp⟩

theorem panic_udpWrite {worker : Worker} :
    s.panic worker = some s' →
    s'.udpWrite = s.udpWrite ∨ ∃ result, s'.udpWrite = .leave result := by
  fun_cases State.panic s worker
  all_goals rintro ⟨⟩
  case case9 => exact .inr ⟨_, rfl⟩
  all_goals exact .inl rfl

theorem panic_control {worker : Worker} :
    s.panic worker = some s' → s'.control = s.control ∨ ∃ result, s'.control = .leave result := by
  fun_cases State.panic s worker
  all_goals rintro ⟨⟩
  case case16 => exact .inr ⟨_, rfl⟩
  all_goals exact .inl rfl

theorem Takes.reading (h : Takes s a s' evs) {observed : Reading} :
    s'.udpWrite.reading = some observed →
    s.udpWrite.reading = some observed ∨ observed = s'.shared.progress.generation := by
  intro hreading
  cases h with
  | udpWrite hstep => exact udpWriteStep_reading hstep hreading
  | panic hpanic =>
      rcases panic_udpWrite hpanic with hsame | ⟨result, hleave⟩
      · exact .inl (hsame ▸ hreading)
      · rw [hleave] at hreading
        cases hreading
  | interrupt | inside | main | tunRead | encrypt | decrypt | control => exact .inl hreading

theorem Takes.waits (h : Takes s a s' evs) (hdown : s.shared.continues = false)
    {observed : Reading} : s'.udpWrite = .wait observed → s.udpWrite = .wait observed := by
  intro hwait
  cases h with
  | udpWrite hstep => exact absurd hwait (udpWriteStep_wait hdown hstep)
  | panic hpanic =>
      rcases panic_udpWrite hpanic with hsame | ⟨result, hleave⟩
      · exact hsame ▸ hwait
      · rw [hleave] at hwait
        cases hwait
  | interrupt | inside | main | tunRead | encrypt | decrypt | control => exact hwait

theorem Takes.turns (h : Takes s a s' evs) (hdown : s.shared.continues = false) :
    s'.control.Turns → s.control.Turns := by
  intro hturns
  cases h with
  | control hstep => exact (controlStep_turns hdown hstep hturns).1
  | panic hpanic =>
      rcases panic_control hpanic with hsame | ⟨result, hleave⟩
      · exact hsame ▸ hturns
      · rw [hleave] at hturns
        exact hturns.elim
  | interrupt | inside | main | tunRead | encrypt | udpWrite | decrypt => exact hturns

/-- The main thread goes on to this action, or another thread takes a step. -/
theorem Takes.past (h : Takes s a s' evs) {op : Cleanup} :
    s'.main.Past op → s.main.Past op ∨
      s'.udpWrite = s.udpWrite ∧
        cleanupStep (fun worker => (s.joined worker).isSome) s.shared op =
          some (s'.shared, evs) := by
  intro hpast
  rcases h.main_stays with ⟨call, rfl⟩ | hmain
  · cases h with
    | main hstep => exact (mainStep_past hstep hpast).imp_right fun hop => ⟨rfl, hop⟩
  · exact .inl (hmain ▸ hpast)

theorem Takes.roused (h : Takes s a s' evs) (hcleaned : s.Cleaned) (hs : s.Roused) :
    s'.Roused where
  reading observed hreading := by
    rcases h.reading hreading with hbefore | rfl
    · exact Nat.le_trans (hs.reading observed hbefore) h.frame.count
    · exact Nat.le_refl _
  notified hpast observed hwait := by
    rcases h.past hpast with hbefore | ⟨hsame, hop⟩
    · have hwait := h.waits (hcleaned.down hbefore) hwait
      exact Nat.lt_of_lt_of_le (hs.notified hbefore observed hwait) h.frame.count
    · obtain ⟨hsh, -⟩ := Prod.mk.inj (Option.some.inj hop)
      have hle := hs.reading observed (by rw [← hsame, hwait]; rfl)
      rw [← hsh]
      exact Nat.lt_succ_of_le hle
  woken hpast hturns := by
    rcases h.past hpast with hbefore | ⟨-, hop⟩
    · have hturns := h.turns (hcleaned.down hbefore) hturns
      refine h.frame.wake (fun hdrain => ?_) (hs.woken hbefore hturns)
      rw [hdrain] at hturns
      exact hturns
    · obtain ⟨hsh, -⟩ := Prod.mk.inj (Option.some.inj hop)
      rw [← hsh]

theorem start_roused : State.start.Roused where
  reading _ hreading := by cases hreading
  notified hpast := hpast.elim
  woken hpast := hpast.elim

end Sleepers

/-! ## Somebody can go on -/

section Progress

variable {sh : Shared} {s : State}

theorem call_push_some (sh : Shared) (name : QueueName) (x : name.Item) :
    ∃ r, sh.call name (.push x) = some r := by
  rcases Queue.push_cases (sh.queues name).queue ((sh.queues name).pushes, x) with
    ⟨-, hp⟩ | ⟨old, rest, queue, -, -, -, hp, -⟩ | ⟨queue, -, -, hp, -⟩ <;>
    simp [Shared.call, QueueRun.step, hp]

theorem call_close_some (sh : Shared) (name : QueueName) : ∃ r, sh.call name .close = some r := by
  simp [Shared.call, QueueRun.step]

theorem call_notifyChange_some (sh : Shared) (name : QueueName) :
    ∃ r, sh.call name .notifyChange = some r := by
  simp [Shared.call, QueueRun.step]

theorem call_tryPop_some {name : QueueName} (hfront : (sh.queues name).front = none) :
    ∃ r, sh.call name .tryPop = some r := by
  rcases Queue.tryPop_cases (sh.queues name).queue with
    ⟨x, rest, -, hp⟩ | ⟨-, -, hp⟩ | ⟨-, -, hp⟩ <;>
    simp [Shared.call, QueueRun.step, hfront, hp]

theorem tunReadStep_some (sh : Shared) {pc : TunReadPc} (hpc : ∀ result, pc ≠ .ended result) :
    ∃ call r, tunReadStep sh pc call = some r := by
  cases pc with
  | ended result => exact absurd rfl (hpc result)
  | top | store | send | leave => exact ⟨.go, _, rfl⟩
  | poll => exact ⟨.poll .idle, _, rfl⟩
  | read => exact ⟨.read (.ok []), _, rfl⟩
  | push packet =>
      obtain ⟨r, hr⟩ := call_push_some sh .tunRead packet
      exact ⟨.go, _, by simp only [tunReadStep, hr]; rfl⟩
  | close =>
      obtain ⟨r, hr⟩ := call_close_some sh .tunRead
      exact ⟨.go, _, by simp only [tunReadStep, hr]; rfl⟩

theorem encryptStep_some {pc : EncryptPc} (hpc : ∀ result, pc ≠ .ended result)
    (hfront : (sh.queues .tunRead).front = none) (hclosed : sh.isClosed .tunRead = true) :
    ∃ call r, encryptStep true sh pc call = some r := by
  cases pc with
  | ended result => exact absurd rfl (hpc result)
  | flush => exact ⟨.flushed false, _, rfl⟩
  | tryPop =>
      obtain ⟨r, hr⟩ := call_tryPop_some hfront
      exact ⟨.go, _, by simp only [encryptStep, hr]; rfl⟩
  | wait observed =>
      have hchanged : sh.changed .tunRead observed = true := by rw [Shared.changed, hclosed]; rfl
      exact ⟨.go, _, by rw [encryptStep, if_pos hchanged]⟩
  | _ => exact ⟨.go, _, rfl⟩

theorem udpWriteStep_some {pc : UdpWritePc} (hpc : ∀ result, pc ≠ .ended result)
    (hwait : ∀ observed, pc = .wait observed → ∃ u, sh.progress.wait observed = some u) :
    ∃ call r, udpWriteStep true sh pc call = some r := by
  cases pc with
  | ended result => exact absurd rfl (hpc result)
  | drain => exact ⟨.drained false false, _, rfl⟩
  | lockLook => exact ⟨.looked false, _, rfl⟩
  | change =>
      obtain ⟨r, hr⟩ := call_notifyChange_some sh .tunRead
      exact ⟨.go, _, by simp only [udpWriteStep, hr]; rfl⟩
  | wait observed =>
      obtain ⟨u, hu⟩ := hwait observed rfl
      exact ⟨.go, _, by simp only [udpWriteStep, hu]; rfl⟩
  | _ => exact ⟨.go, _, rfl⟩

theorem decryptStep_some {pc : DecryptPc} (hpc : ∀ result, pc ≠ .ended result)
    (hfront : (sh.queues .udpRx).front = none) (hclosed : sh.isClosed .udpRx = true) :
    ∃ call r, decryptStep true sh pc call = some r := by
  cases pc with
  | ended result => exact absurd rfl (hpc result)
  | read => exact ⟨.readAll false, _, rfl⟩
  | tunCall observed packet =>
      have hagain : tunTurn packet ⟨.error serverStopping, .ok ()⟩ = none := rfl
      exact ⟨.tun ⟨.error serverStopping, .ok ()⟩, _, by simp only [decryptStep, hagain]; rfl⟩
  | reloads =>
      cases hreloads : sh.reloads <;> exact ⟨.go, _, by simp only [decryptStep, hreloads]; rfl⟩
  | errors => cases herrors : sh.errors <;> exact ⟨.go, _, by simp only [decryptStep, herrors]; rfl⟩
  | tryPop =>
      obtain ⟨r, hr⟩ := call_tryPop_some hfront
      exact ⟨.go, _, by simp only [decryptStep, hr]; rfl⟩
  | wait observed =>
      have hchanged : sh.changed .udpRx observed = true := by rw [Shared.changed, hclosed]; rfl
      exact ⟨.go, _, by rw [decryptStep, if_pos hchanged]⟩
  | handle => exact ⟨.handled (.ok ()), _, rfl⟩
  | finish result =>
      cases result with
      | error error => exact ⟨.go, _, rfl⟩
      | ok _ =>
          cases herrors : sh.errors <;>
            exact ⟨.go, _, by simp only [decryptStep, herrors]; rfl⟩
  | _ => exact ⟨.go, _, rfl⟩

/-- The wait of the control worker, alone, has no bound of its own: it is over when
the wake-up socket says so. -/
def ControlCall.Prompt : ControlCall → Prop
  | .poll .other => False
  | .poll .interrupted => False
  | _ => True

theorem controlStep_some {pc : ControlPc} (hpc : ∀ result, pc ≠ .ended result)
    (hwake : pc.Turns → sh.wake = true) :
    ∃ call r, call.Prompt ∧ controlStep true sh pc call = some r := by
  cases pc with
  | ended result => exact absurd rfl (hpc result)
  | pass => exact ⟨.passed (.ok ()), _, trivial, rfl⟩
  | decide => exact ⟨.decide .notDue, _, trivial, rfl⟩
  | send =>
      cases hreceivers : sh.receivers <;>
        exact ⟨.go, _, trivial, by simp only [controlStep, hreceivers]; rfl⟩
  | change =>
      obtain ⟨r, hr⟩ := call_notifyChange_some sh .udpRx
      exact ⟨.go, _, trivial, by simp only [controlStep, hr]; rfl⟩
  | poll => exact ⟨.poll .woken, _, trivial, by rw [controlStep, if_pos (hwake trivial)]⟩
  | _ => exact ⟨.go, _, trivial, rfl⟩

/-- The action does not wait for another socket than the wake-up socket. -/
def Act.Prompt : Act → Prop
  | .control call => call.Prompt
  | _ => True

/-- A thread can go on, without a datagram. -/
def State.GoesOn (s : State) : Prop :=
  ∃ a r, a.own = true ∧ Still s a ∧ a.Prompt ∧ step s a = some r

/-- Whoever holds the session lock can go on. -/
theorem goesOn_of_holds {worker : Worker} (h : s.holds worker = true) : s.GoesOn := by
  cases worker with
  | tunRead => cases h
  | encrypt =>
      cases hpc : s.encrypt <;> simp [State.holds, hpc] at h
      case route | retry =>
          exact ⟨.encrypt .go, _, rfl, trivial, trivial, by simp only [step, encryptStep, hpc]; rfl⟩
      case flush =>
          exact ⟨.encrypt (.flushed false), _, rfl, trivial, trivial,
            by simp only [step, encryptStep, hpc]; rfl⟩
  | udpWrite =>
      cases hpc : s.udpWrite <;> simp [State.holds, hpc] at h
      exact ⟨.udpWrite (.drained false false), _, rfl, trivial, trivial,
        by simp only [step, udpWriteStep, hpc]; rfl⟩
  | decrypt =>
      cases hpc : s.decrypt <;> simp [State.holds, hpc] at h
      case read =>
          exact ⟨.decrypt (.readAll false), _, rfl, trivial, trivial,
            by simp only [step, decryptStep, hpc]; rfl⟩
      case writeTun | dedupe =>
          exact ⟨.decrypt .go, _, rfl, trivial, trivial, by simp only [step, decryptStep, hpc]; rfl⟩
      case tunCall observed packet =>
          have hagain : tunTurn packet ⟨.error serverStopping, .ok ()⟩ = none := rfl
          exact ⟨.decrypt (.tun ⟨.error serverStopping, .ok ()⟩), _, rfl, trivial, trivial,
            by simp only [step, decryptStep, hpc, hagain]; rfl⟩
      case handle =>
          exact ⟨.decrypt (.handled (.ok ())), _, rfl, trivial, trivial,
            by simp only [step, decryptStep, hpc]; rfl⟩
  | control =>
      cases hpc : s.control <;> simp [State.holds, hpc] at h
      case pass =>
          exact ⟨.control (.passed (.ok ())), _, rfl, trivial, trivial,
            by simp only [step, controlStep, hpc]; rfl⟩
      case purge =>
          exact ⟨.control .go, _, rfl, trivial, trivial, by simp only [step, controlStep, hpc]; rfl⟩

theorem goesOn_of_locked (h : s.lockFree = false) : s.GoesOn := by
  simp only [State.lockFree, Bool.not_eq_false', Bool.or_eq_true] at h
  rcases h with ((h | h) | h) | h <;> exact goesOn_of_holds h

/-- Everybody has been told to stop, and the queues are closed. -/
structure State.Warned (s : State) : Prop where
  closed : ∀ name, s.shared.isClosed name = true
  front : ∀ name, (s.shared.queues name).front = none
  signal : ∀ observed, s.udpWrite = .wait observed →
    ∃ u, s.shared.progress.wait observed = some u
  wake : s.control.Turns → s.shared.wake = true

/-- A worker that has not ended can go on, or waits for the lock. -/
theorem goesOn_of_unjoined (hs : s.Warned) {worker : Worker}
    (hjoined : s.joined worker = none) : s.GoesOn := by
  cases hfree : s.lockFree with
  | false => exact goesOn_of_locked hfree
  | true =>
      cases worker with
      | tunRead =>
          have hpc : ∀ result, s.tunRead ≠ .ended result := fun result h => by
            simp [State.joined, h] at hjoined
          obtain ⟨call, r, hr⟩ := tunReadStep_some s.shared hpc
          exact ⟨.tunRead call, _, rfl, trivial, trivial, by rw [step, hr]; rfl⟩
      | encrypt =>
          have hpc : ∀ result, s.encrypt ≠ .ended result := fun result h => by
            simp [State.joined, h] at hjoined
          obtain ⟨call, r, hr⟩ := encryptStep_some hpc (hs.front _) (hs.closed _)
          exact ⟨.encrypt call, _, rfl, trivial, trivial, by rw [step, hfree, hr]; rfl⟩
      | udpWrite =>
          have hpc : ∀ result, s.udpWrite ≠ .ended result := fun result h => by
            simp [State.joined, h] at hjoined
          obtain ⟨call, r, hr⟩ := udpWriteStep_some hpc hs.signal
          exact ⟨.udpWrite call, _, rfl, trivial, trivial, by rw [step, hfree, hr]; rfl⟩
      | decrypt =>
          have hpc : ∀ result, s.decrypt ≠ .ended result := fun result h => by
            simp [State.joined, h] at hjoined
          obtain ⟨call, r, hr⟩ := decryptStep_some hpc (hs.front _) (hs.closed _)
          exact ⟨.decrypt call, _, rfl, trivial, trivial, by rw [step, hfree, hr]; rfl⟩
      | control =>
          have hpc : ∀ result, s.control ≠ .ended result := fun result h => by
            simp [State.joined, h] at hjoined
          obtain ⟨call, r, hprompt, hr⟩ := controlStep_some hpc hs.wake
          exact ⟨.control call, _, rfl, trivial, hprompt, by rw [step, hfree, hr]; rfl⟩

theorem mainStep_some (ended : Worker → Bool) (sh : Shared) {pc : MainPc} (hpc : pc.Works) :
    ∃ call r, Still s (.main call) ∧ mainStep ended sh pc call = some r := by
  cases pc with
  | cleanup result rest => exact hpc.elim
  | top | notify => exact ⟨.go, _, trivial, rfl⟩
  | poll => exact ⟨.poll .idle, _, trivial, rfl⟩
  | recv =>
      exact ⟨.recv (.error (IoError.new .wouldBlock "")), _, trivial,
        by rw [mainStep, if_pos (.inl rfl)]⟩
  | push datagram =>
      obtain ⟨r, hr⟩ := call_push_some sh .udpRx datagram
      exact ⟨.go, _, trivial, by simp only [mainStep, hr]; rfl⟩

theorem cleanupStep_some {op : Cleanup}
    (hjoin : ∀ worker, op = .join worker → (s.joined worker).isSome = true) :
    ∃ r, cleanupStep (fun worker => (s.joined worker).isSome) s.shared op = some r := by
  cases op with
  | store | notify | wake => exact ⟨_, rfl⟩
  | close name =>
      obtain ⟨r, hr⟩ := call_close_some s.shared name
      exact ⟨_, by simp only [cleanupStep, hr]; rfl⟩
  | join worker => exact ⟨_, if_pos (hjoin worker rfl)⟩

theorem not_join_of_lt {n : Nat} (hn : n < 5) (worker : Worker) :
    cleanup[n]? ≠ some (.join worker) := by
  match n, hn with
  | 0, _ | 1, _ | 2, _ | 3, _ | 4, _ => simp [cleanup]

/-- Before it joins a worker, the main thread has done all the rest. -/
theorem before_join {before rest : List Cleanup} {worker : Worker}
    (h : before ++ .join worker :: rest = cleanup) :
    ∀ op ∈ cleanup.take 5, op ∈ before ∧ op ∉ Cleanup.join worker :: rest := by
  have htake : before = cleanup.take before.length := by rw [← h, List.take_left]
  have hdrop : Cleanup.join worker :: rest = cleanup.drop before.length := by
    rw [← h, List.drop_left]
  have hlength : 5 ≤ before.length := by
    by_contra hlt
    refine not_join_of_lt (Nat.lt_of_not_le hlt) worker ?_
    rw [← h, List.getElem?_append_right (Nat.le_refl _), Nat.sub_self]
    rfl
  have hlater : ∀ op ∈ cleanup.take 5, op ∉ cleanup.drop 5 := by decide
  intro op hop
  constructor
  · rw [htake]
    exact List.take_subset_take_left cleanup hlength hop
  · intro hmem
    have hsplit : cleanup.drop before.length = (cleanup.drop 5).drop (before.length - 5) := by
      rw [List.drop_drop, Nat.add_sub_cancel' hlength]
    rw [hdrop, hsplit] at hmem
    exact hlater op hop (List.mem_of_mem_drop hmem)

/-- A reading that is out of date, but by fewer than 2⁶⁴, does not block. -/
theorem wait_some {signal : WorkerSignal} {observed : Reading}
    (hlt : observed.count < signal.generation.count)
    (hfew : signal.generation.count - observed.count < UInt64.size) :
    signal.wait observed = some () := by
  refine if_neg fun hvalue => ?_
  have hzero : (signal.generation.count - observed.count) % UInt64.size = 0 :=
    Nat.sub_mod_eq_zero_of_mod_eq (Reading.mod_eq hvalue)
  rw [Nat.mod_eq_of_lt hfew] at hzero
  omega

/-- What holds of the sleepers and of the cleanup, in every state. -/
structure State.Kept (s : State) : Prop where
  cleaned : s.Cleaned
  roused : s.Roused
  front : ∀ name, (s.shared.queues name).front = none

theorem Takes.kept {s' : State} {a : Act} {evs : List Event} (h : Takes s a s' evs)
    (hs : s.Kept) : s'.Kept :=
  ⟨h.cleaned hs.cleaned, h.roused hs.cleaned hs.roused, h.frame.front hs.front⟩

/-- When the main thread comes to its first `join`, everybody is warned. -/
theorem State.Kept.warned (hs : s.Kept) {result : Except IoError Unit} {rest : List Cleanup}
    {worker : Worker} (hpc : s.main = .cleanup result (.join worker :: rest))
    (hfew : ∀ observed, s.udpWrite = .wait observed →
      s.shared.progress.generation.count - observed.count < UInt64.size) : s.Warned := by
  obtain ⟨before, hbefore, hdone⟩ := hs.cleaned result _ hpc
  have hpast : ∀ op ∈ cleanup.take 5, s.main.Past op := fun op hop => by
    rw [hpc]
    exact (before_join hbefore op hop).2
  have hall : ∀ op ∈ cleanup.take 5, s.Done op := fun op hop =>
    hdone op (before_join hbefore op hop).1
  exact
    { closed := fun name => hall (.close name) (by cases name <;> decide)
      front := hs.front
      signal := fun observed hwait => ⟨(),
        wait_some (hs.roused.notified (hpast .notify (by decide)) observed hwait)
          (hfew observed hwait)⟩
      wake := hs.roused.woken (hpast .wake (by decide)) }

/-- The server has stopped, or somebody can go on. -/
theorem State.Kept.goesOn (hs : s.Kept)
    (hfew : ∀ observed, s.udpWrite = .wait observed →
      s.shared.progress.generation.count - observed.count < UInt64.size) :
    (∃ read, s.main = .cleanup read []) ∨ s.GoesOn := by
  have hgo : ∀ call r, Still s (.main call) →
      mainStep (fun worker => (s.joined worker).isSome) s.shared s.main call = some r →
      s.GoesOn := fun call r hstill hr =>
    ⟨.main call, _, rfl, hstill, trivial, by rw [step, hr]; rfl⟩
  by_cases hworks : s.main.Works
  · obtain ⟨call, r, hstill, hr⟩ := mainStep_some _ s.shared hworks
    exact .inr (hgo call r hstill hr)
  cases hpc : s.main with
  | cleanup result rest =>
      cases rest with
      | nil => exact .inl ⟨result, rfl⟩
      | cons op rest =>
          refine .inr ?_
          by_cases hjoin : ∀ worker, op = .join worker → (s.joined worker).isSome = true
          · obtain ⟨r, hr⟩ := cleanupStep_some hjoin
            exact hgo .go (r.1, .cleanup result rest, r.2) trivial
              (by simp only [hpc, mainStep, hr])
          · obtain ⟨worker, hworker⟩ := not_forall.mp hjoin
            obtain ⟨rfl, hjoined⟩ := Classical.not_imp.mp hworker
            exact goesOn_of_unjoined (hs.warned hpc hfew) (Option.not_isSome_iff_eq_none.mp hjoined)
  | _ =>
      rw [hpc] at hworks
      exact absurd trivial hworks

end Progress

/-! ## Runs -/

section Runs

variable {G : State → Act → Prop} {as : List Act} {log : List Event} {s : State}

theorem start_kept : State.start.Kept :=
  ⟨start_sound.cleaned, start_roused, fun name => by cases name <;> rfl⟩

theorem run_kept (h : machine.Run G as log s) : s.Kept :=
  h.invariant (fun _ s => s.Kept) start_kept fun hs _ hstep => (step_takes hstep).kept hs

/-- Once a flag is down, and while no datagram comes in, the threads take a bounded
number of actions more, whatever the system and wolfSSL answer and whoever goes
first; and until `run` returns one of them can go on. -/
theorem winds_down (h : machine.Run G as log s) (hdown : s.shared.continues = false)
    (bs : List Act) (log' : List Event) (s' : State)
    (h' : (machine.startedAt s).Run Still bs log' s') :
    (bs.filter Act.own).length ≤ 78 + 8 * s.shared.backlog + s.shared.reloads ∧
    ((∀ observed, s'.udpWrite = .wait observed →
        s'.shared.progress.generation.count - observed.count < UInt64.size) →
      (∃ read, s'.main = .cleanup read []) ∨ s'.GoesOn) := by
  constructor
  · obtain ⟨-, hranked⟩ := h'.ranked (fun s => s.shared.continues = false) State.rank Act.own hdown
      (fun hs _ hstep => (step_takes hstep).continues hs)
      (fun hs hstill hstep => ((step_takes hstep).rank hs hstill).1)
      fun hs hstill hstep => ((step_takes hstep).rank hs hstill).2
    exact Nat.le_trans (Nat.le_trans (Nat.le_add_left _ _) hranked) (rank_le (run_kept h).cleaned)
  · have hkept : s'.Kept :=
      h'.invariant (fun _ s => s.Kept) (run_kept h) fun hs _ hstep => (step_takes hstep).kept hs
    exact hkept.goesOn

/-- The UDP writer and the control worker are asleep when the user interrupts the
server. -/
def asleepActs : List Act :=
  [.udpWrite .go, .udpWrite .go, .udpWrite .go, .udpWrite (.drained false false),
    .udpWrite (.looked false), .udpWrite .go, .control .go, .control .go,
    .control (.passed (.ok ())), .control (.decide .notDue), .control .go, .interrupt]

def asleep : State × List Event := machine.outcome (fun _ _ => true) asleepActs

/-- The main thread comes to its first `join`. -/
def rousingActs : List Act :=
  [.main .go, .main .go, .main .go, .main .go, .main .go, .main .go]

def roused : State × List Event :=
  (machine.startedAt asleep.1).outcome (fun _ _ => true) rousingActs

theorem winds_down_asleep : roused.1.GoesOn := by
  have hrun : machine.Run Machine.Free asleepActs asleep.2 asleep.1 :=
    Machine.run_outcome (fun _ _ _ => trivial) (by decide +kernel)
  have hrun' : (machine.startedAt asleep.1).Run Machine.Free rousingActs roused.2 roused.1 :=
    Machine.run_outcome (fun _ _ _ => trivial) (by decide +kernel)
  have hstill : (machine.startedAt asleep.1).Run Still rousingActs roused.2 roused.1 :=
    hrun'.guarded (by simp [rousingActs, Still])
  have hpc : roused.1.main = .cleanup (.ok ()) (cleanup.drop 5) := rfl
  have hgoes := (winds_down hrun (by decide +kernel) _ _ _ hstill).2
  refine (hgoes fun observed hwait => ?_).resolve_left ?_
  · have hasleep : roused.1.udpWrite = .wait ⟨0, 0, rfl⟩ := rfl
    obtain rfl := UdpWritePc.wait.inj (hasleep.symm.trans hwait)
    decide +kernel
  · rintro ⟨read, hread⟩
    cases hpc.symm.trans hread

end Runs

end ServerThreads

end AutobricksVpn
