/-
# `AutobricksVpn.Client.Wakeful` — no datagram is left behind by a sleeping client

The decrypt worker of the client is the consumer of an event count: it reads the
generation of `dtls_progress`, drains wolfSSL, looks at `encrypted_rx`, and waits
until the generation has changed.  `udp_read` is the producer; the others notify
without having enqueued anything.  Every step is a sequence of moves of the event
count (`step_forDecrypt`), so no wake-up is lost (`no_datagram_left`).
-/
import AutobricksVpn.Client.Workers
import AutobricksVpn.Lib.Eventcount

namespace AutobricksVpn

namespace ClientTunnel

open Eventcount

/-! ## The decrypt worker as a consumer -/

/-- It has seen `encrypted_rx` empty when it goes to wait for it to fill. -/
def DecryptPc.reading : DecryptPc → Eventcount.Phase Unit
  | .read observed | .notify observed | .next observed | .waitWrite observed =>
      .observed observed.count fun _ => False
  | .wait observed => .observed observed.count fun _ => True
  | .top | .observe | .received _ | .push _ | .inject _ | .store _ | .send _ | .ended => .working

/-- `udp_read` owes a notification for the datagram it has enqueued. -/
def State.owed (s : State) : Thread → Call Unit
  | .udpRead => if s.udpRead = .notify then .enqueued () else .idle
  | _ => .idle

def State.forDecrypt (s : State) : Eventcount.State Thread Unit :=
  { count := s.shared.progress.generation.count, phase := s.decrypt.pc.reading, call := s.owed
    pending := fun _ => (s.shared.queues .encryptedRx).queue.items ≠ [] }

section Moves

variable {interval : Duration} {role : Role} {sh sh' : Shared} {s s' : State} {a : Act}
  {evs : List Event} {m : Nat}

/-- The moves to the same state, so that the state after a step can be described
field by field. -/
theorem moves_to {e e' : Eventcount.State Thread Unit} :
    e'.count = e.count → e'.phase = e.phase → e'.call = e.call →
    (∀ key, e'.pending key → e.pending key) → Relation.ReflTransGen (Eventcount.Move m) e e' :=
  fun hcount hphase hcall hpending => moves_work hcount hphase hcall fun key h => .inl (hpending key h)

/-- Somebody notifies who has enqueued nothing. -/
theorem moves_notify {e e' : Eventcount.State Thread Unit} {i : Thread} :
    e.call i = .idle → e'.count = e.count + 1 → e'.phase = e.phase.woken → e'.call = e.call →
    (∀ key, e'.pending key → e.pending key) → Relation.ReflTransGen (Eventcount.Move m) e e' := by
  intro hidle hcount hphase hcall hpending
  have hfirst : Relation.ReflTransGen (Eventcount.Move m) e
      { e with
        count := e.count + 1, pending := e'.pending
        call := Function.update e.call i (.counted none) } :=
    moves_increment rfl rfl rfl hpending (.inl ⟨hidle, rfl⟩)
  refine hfirst.tail ?_
  obtain ⟨count, phase, call, pending⟩ := e'
  obtain rfl : count = e.count + 1 := hcount
  obtain rfl : phase = e.phase.woken := hphase
  obtain rfl : call = e.call := hcall
  have hcounted : Function.update e.call i (.counted none) i = .counted none :=
    Function.update_self i _ _
  have hwake := Eventcount.Move.wake (m := m) (s := { e with
    count := e.count + 1, pending := pending
    call := Function.update e.call i (.counted none) }) (i := i) hcounted
  rw [Function.update_idem, ← hidle, Function.update_eq_self] at hwake
  exact hwake

theorem woken_reading (pc : DecryptPc) : pc.reading.woken = pc.reading := by
  cases pc <;> rfl

/-- Nobody but `udp_read` fills the queue. -/
theorem items_nil (h : Carries role sh sh' evs) (hne : role ≠ .worker .udpRead) :
    (sh'.queues .encryptedRx).queue.items ≠ [] → (sh.queues .encryptedRx).queue.items ≠ [] := by
  rcases h.queue .encryptedRx with ⟨hq, -⟩ | ⟨a, hallowed, hstep⟩
  · rw [hq]
    exact id
  · cases a with
    | push => exact absurd hallowed hne
    | close =>
        obtain ⟨hq, -⟩ := Prod.mk.inj (Option.some.inj hstep)
        rw [← hq]
        intro hitems
        exact absurd (Queue.close_items _) hitems
    | tryPop =>
        obtain ⟨-, ⟨hq, -⟩ | ⟨x, rest, hi, -, -⟩⟩ := QueueRun.step_take (.inl rfl) hstep
        · rw [hq]
          exact id
        · rw [hi]
          exact fun _ => List.cons_ne_nil _ _
    | peek | commit | restore => exact absurd rfl hallowed.1
    | notifyChange | pop | popTimeout | tryPeek => exact hallowed.elim

/-- A step of somebody else: at most a notification. -/
theorem step_forDecrypt_other (h : step interval s a = some (s', evs))
    (hudpRead : a.role ≠ .worker .udpRead) (hdecrypt : a.role ≠ .worker .decrypt) :
    Relation.ReflTransGen (Eventcount.Move m) s.forDecrypt s'.forDecrypt := by
  have hcarries := step_carries h
  have huntouched := step_untouched h
  have hphase : s'.forDecrypt.phase = s.forDecrypt.phase :=
    congrArg (fun d => d.pc.reading) (huntouched.decrypt hdecrypt)
  have hcall : s'.forDecrypt.call = s.forDecrypt.call := by
    funext thread
    cases thread with
    | udpRead =>
        show (if s'.udpRead = .notify then _ else _) = if s.udpRead = .notify then _ else _
        rw [huntouched.udpRead hudpRead]
    | tunRead | decrypt | tunWrite | encrypt | udpWrite => rfl
  have hpending : ∀ key, s'.forDecrypt.pending key → s.forDecrypt.pending key :=
    fun _ => items_nil hcarries hudpRead
  rcases hcarries.progress with hprogress | hprogress
  · exact moves_to (congrArg (·.generation.count) hprogress) hphase hcall hpending
  · refine moves_notify (i := .tunRead) rfl ?_ ?_ hcall hpending
    · exact congrArg (·.generation.count) hprogress
    · rw [hphase]
      exact (woken_reading _).symm

/-- What `udp_read` does to the queue and the signal. -/
inductive Produces (sh : Shared) : UdpReadPc → Shared → UdpReadPc → Prop
  | enqueue {pc : UdpReadPc} {sh' : Shared} : pc ≠ .notify → sh'.progress = sh.progress →
      Produces sh pc sh' .notify
  | notify {sh' : Shared} {pc' : UdpReadPc} : pc' ≠ .notify →
      sh'.progress = sh.progress.notify → sh'.queues = sh.queues →
      Produces sh .notify sh' pc'
  | other {pc pc' : UdpReadPc} {sh' : Shared} : pc ≠ .notify → pc' ≠ .notify →
      sh'.progress = sh.progress →
      ((sh'.queues .encryptedRx).queue.items ≠ [] → (sh.queues .encryptedRx).queue.items ≠ []) →
      Produces sh pc sh' pc'

theorem udpReadStep_produces {pc pc' : UdpReadPc} {call : UdpReadCall} :
    udpReadStep sh pc call = some (sh', pc', evs) → Produces sh pc sh' pc' := by
  fun_cases udpReadStep sh pc call
  all_goals rintro ⟨⟩
  case case1 => cases sh.continues <;> exact .other (by simp) (by simp) rfl id
  case case2 ready _ => cases ready <;> exact .other (by simp) (by simp) rfl id
  case case9 datagram sh'' evs hcall =>
      have hprogress : sh''.progress = sh.progress := by
        obtain ⟨queue, -, rfl⟩ := call_some hcall
        rfl
      have hstep := call_self hcall
      by_cases hrefused : pushAnswer evs = .refused
      · rw [if_pos hrefused]
        refine .other (by simp) (by simp) hprogress ?_
        have hclosed := pushAnswer_refused hstep hrefused
        have hclosed' := (QueueRun.step_frame hstep).2.2
        rw [hclosed, Bool.true_or] at hclosed'
        exact fun hitems => absurd (Queue.drained _ hclosed') hitems
      · rw [if_neg hrefused]
        exact .enqueue (by simp) hprogress
  case case10 => exact .notify (by simp) rfl rfl
  case case14 hcall =>
      have hprogress : sh'.progress = sh.progress := by
        obtain ⟨queue, -, rfl⟩ := call_some hcall
        rfl
      refine .other (by simp) (by simp) hprogress ?_
      obtain ⟨hq, -⟩ := Prod.mk.inj (Option.some.inj (call_self hcall))
      rw [← hq]
      exact fun hitems => absurd (Queue.close_items _) hitems
  all_goals exact .other (by simp) (by simp) rfl id

/-- The producer enqueues, and then notifies. -/
theorem step_forDecrypt_udpRead {call : UdpReadCall}
    (h : step interval s (.udpRead call) = some (s', evs)) :
    Relation.ReflTransGen (Eventcount.Move m) s.forDecrypt s'.forDecrypt := by
  have hphase : s'.forDecrypt.phase = s.forDecrypt.phase :=
    congrArg (fun d => d.pc.reading) ((step_untouched h).decrypt (by simp [Act.role]))
  have hcall : ∀ {call' : Call Unit},
      (if s'.udpRead = .notify then .enqueued () else .idle) = call' →
      s'.forDecrypt.call = Function.update s.forDecrypt.call .udpRead call' := by
    intro call' hcall'
    funext thread
    cases thread with
    | udpRead =>
        rw [Function.update_self]
        exact hcall'
    | tunRead | decrypt | tunWrite | encrypt | udpWrite =>
        exact (Function.update_of_ne (by simp) _ _).symm
  have hidle : s.udpRead ≠ .notify → s.forDecrypt.call .udpRead = .idle := fun hne => if_neg hne
  have hproduces := udpReadStep_produces (step_udpRead h)
  have hshared : s'.forDecrypt.count = s'.shared.progress.generation.count := rfl
  generalize hbefore : s.udpRead = pc at hproduces
  generalize hafter : s'.udpRead = pc' at hproduces
  cases hproduces with
  | enqueue hne hprogress =>
      have hmove : Eventcount.Move m s.forDecrypt { s.forDecrypt with
          pending := s'.forDecrypt.pending
          call := Function.update s.forDecrypt.call .udpRead (.enqueued ()) } :=
        .enqueue (hidle (hbefore ▸ hne)) fun key _ => .inr rfl
      refine .trans (.single hmove) (moves_to ?_ hphase (hcall (if_pos hafter)) fun _ => id)
      exact congrArg (·.generation.count) hprogress
  | notify hne hprogress hqueues =>
      have howed : s.forDecrypt.call .udpRead = .enqueued () := if_pos hbefore
      have hpending : ∀ key, s'.forDecrypt.pending key → s.forDecrypt.pending key := by
        intro _ hitems
        show (s.shared.queues .encryptedRx).queue.items ≠ []
        rw [← hqueues]
        exact hitems
      have hfirst : Relation.ReflTransGen (Eventcount.Move m) s.forDecrypt { s.forDecrypt with
          count := s.forDecrypt.count + 1, pending := s'.forDecrypt.pending
          call := Function.update s.forDecrypt.call .udpRead (.counted (some ())) } :=
        moves_increment rfl rfl rfl hpending (.inr ⟨(), howed, rfl⟩)
      have hcounted : Function.update s.forDecrypt.call .udpRead (.counted (some ())) .udpRead =
          .counted (some ()) := Function.update_self _ _ _
      have hwake := Eventcount.Move.wake (m := m) (s := { s.forDecrypt with
        count := s.forDecrypt.count + 1, pending := s'.forDecrypt.pending
        call := Function.update s.forDecrypt.call .udpRead (.counted (some ())) })
        (i := .udpRead) hcounted
      refine hfirst.trans (.trans (.single hwake) (moves_to ?_ ?_ ?_ fun _ => id))
      · exact congrArg (·.generation.count) hprogress
      · rw [hphase]
        exact (woken_reading _).symm
      · rw [Function.update_idem]
        exact hcall (if_neg (hafter ▸ hne))
  | other hne hne' hprogress hitems =>
      refine moves_to (congrArg (·.generation.count) hprogress) hphase ?_ fun _ => hitems
      rw [hcall (if_neg (hafter ▸ hne')), ← hidle (hbefore ▸ hne), Function.update_eq_self]

/-- What the decrypt worker makes of its reading. -/
inductive Consumes (sh : Shared) : DecryptPc → Shared → DecryptPc → Prop
  | observe {pc pc' : DecryptPc} {sh' : Shared} :
      pc'.reading = .observed sh.progress.generation.count (fun _ => False) →
      sh'.progress = sh.progress → Consumes sh pc sh' pc'
  | keep {pc pc' : DecryptPc} {sh' : Shared} :
      pc'.reading = pc.reading → sh'.progress = sh.progress → Consumes sh pc sh' pc'
  | notify {pc pc' : DecryptPc} {sh' : Shared} :
      pc'.reading = pc.reading → sh'.progress = sh.progress.notify → Consumes sh pc sh' pc'
  | look {observed : SendPath.Reading} {pc pc' : DecryptPc} {sh' : Shared} :
      pc.reading = .observed observed.count (fun _ => False) → pc' = .wait observed →
      sh' = sh → (sh.queues .encryptedRx).queue.items = [] → Consumes sh pc sh' pc'
  | leave {pc pc' : DecryptPc} {sh' : Shared} :
      pc'.reading = .working → sh'.progress = sh.progress → Consumes sh pc sh' pc'

theorem popped_consumes {d : Decrypt} {observed : SendPath.Reading} {sh'' : Shared}
    {evs : List (QueueRun.Event Packet)} (hpc : d.pc = .next observed)
    (hcall : sh.call .encryptedRx .tryPop = some (sh'', evs)) :
    Consumes sh d.pc sh'' (d.popped observed (sh''.queues .encryptedRx).queue.isClosed evs).pc := by
  have hstep := call_self hcall
  obtain ⟨queue, -, hsh⟩ := call_some hcall
  have hprogress : sh''.progress = sh.progress := by rw [hsh]
  obtain ⟨hfront, ⟨hq, rfl⟩ | ⟨x, rest, -, -, rfl⟩⟩ := QueueRun.step_take (.inl rfl) hstep
  · cases hclosed : (sh''.queues .encryptedRx).queue.isClosed with
    | true => exact .leave rfl hprogress
    | false =>
        refine .look (by rw [hpc]; rfl) rfl ?_ ?_
        · have hqueue : queue = sh.queues .encryptedRx := by
            rw [← hq, hsh]
            exact (Function.update_self QueueName.encryptedRx queue sh.queues).symm
          rw [hsh, hqueue]
          exact congrArg (fun queues => { sh with queues := queues })
            (Function.update_eq_self QueueName.encryptedRx sh.queues)
        · rcases Queue.tryPop_cases (sh.queues .encryptedRx).queue with
            ⟨x, rest, -, hp⟩ | ⟨hi, -, -⟩ | ⟨hi, -, -⟩
          · simp [QueueRun.step, hfront, hp] at hstep
          · exact hi
          · exact hi
  · exact .leave rfl hprogress

theorem decryptStep_consumes {d d' : Decrypt} {call : DecryptCall} :
    decryptStep sh d call = some (sh', d', evs) → Consumes sh d.pc sh' d'.pc := by
  fun_cases decryptStep sh d call
  all_goals rintro ⟨⟩
  case case1 => cases sh.continues <;> exact .leave rfl rfl
  case case2 => cases d.drain <;> exact .observe rfl rfl
  case case3 => exact .leave (by split <;> rfl) rfl
  case case5 hcall =>
      obtain ⟨queue, -, rfl⟩ := call_some hcall
      exact .leave (by dsimp only; split <;> rfl) rfl
  case case6 hpc =>
      rw [hpc]
      exact .notify rfl rfl
  case case7 | case10 | case12 | case14 | case15 | case20 | case23 | case25 | case26 | case27 =>
      exact .leave rfl rfl
  case case9 hpc _ _ hcall => exact popped_consumes hpc hcall
  case case19 hpc | case21 hpc | case22 hpc =>
      rw [hpc]
      exact .keep rfl rfl

/-- The consumer observes, looks, and forgets its reading. -/
theorem step_forDecrypt_decrypt {call : DecryptCall}
    (h : step interval s (.decrypt call) = some (s', evs)) :
    Relation.ReflTransGen (Eventcount.Move m) s.forDecrypt s'.forDecrypt := by
  have hcarries := step_carries h
  have hpending : ∀ key, s'.forDecrypt.pending key → s.forDecrypt.pending key :=
    fun _ => items_nil hcarries (by simp [Act.role])
  have hcall : s'.forDecrypt.call = s.forDecrypt.call := by
    funext thread
    cases thread with
    | udpRead =>
        show (if s'.udpRead = .notify then _ else _) = if s.udpRead = .notify then _ else _
        rw [(step_untouched h).udpRead (by simp [Act.role])]
    | tunRead | decrypt | tunWrite | encrypt | udpWrite => rfl
  -- first what is pending, then the phase
  have hwork : Relation.ReflTransGen (Eventcount.Move m) s.forDecrypt
      { s.forDecrypt with pending := s'.forDecrypt.pending } :=
    moves_work rfl rfl rfl fun key hkey => .inl (hpending key hkey)
  have hconsumes := decryptStep_consumes (step_decrypt h)
  have hphase : s.forDecrypt.phase = s.decrypt.pc.reading := rfl
  have hphase' : s'.forDecrypt.phase = s'.decrypt.pc.reading := rfl
  generalize s.decrypt.pc = pc at hconsumes hphase
  generalize s'.decrypt.pc = pc' at hconsumes hphase'
  generalize hsh : s'.shared = sh' at hconsumes
  have hcount : sh'.progress = s.shared.progress → s'.forDecrypt.count = s.forDecrypt.count :=
    fun hprogress => congrArg (·.generation.count) ((congrArg Shared.progress hsh).trans hprogress)
  cases hconsumes with
  | observe hreading hprogress =>
      refine hwork.trans (.trans (.single .observe) (moves_to (hcount hprogress) ?_ hcall fun _ => id))
      exact hphase'.trans hreading
  | keep hreading hprogress =>
      exact moves_to (hcount hprogress) (hphase'.trans (hreading.trans hphase.symm)) hcall hpending
  | notify hreading hprogress =>
      refine moves_notify (i := .decrypt) rfl ?_ ?_ hcall hpending
      · exact congrArg (·.generation.count) ((congrArg Shared.progress hsh).trans hprogress)
      · rw [hphase', hreading, hphase]
        exact (woken_reading _).symm
  | look hreading hpc' heq hitems =>
      have hsame : s'.forDecrypt.pending = s.forDecrypt.pending := by
        show (fun _ => (s'.shared.queues .encryptedRx).queue.items ≠ []) = _
        rw [hsh, heq]
        rfl
      refine moves_look (hcount (congrArg Shared.progress heq)) hcall hsame (hphase.trans hreading)
        (hphase'.trans (congrArg DecryptPc.reading hpc')) fun _ _ => .inr ?_
      exact not_not_intro hitems
  | leave hreading hprogress =>
      exact hwork.trans (moves_leave (hcount hprogress) hcall rfl (hphase'.trans hreading))

/-- Every step is a sequence of moves of the event count. -/
theorem step_forDecrypt (h : step interval s a = some (s', evs)) :
    Relation.ReflTransGen (Eventcount.Move m) s.forDecrypt s'.forDecrypt := by
  by_cases hudpRead : a.role = .worker .udpRead
  · obtain ⟨call, rfl⟩ := Act.udpRead_of_role hudpRead
    exact step_forDecrypt_udpRead h
  · by_cases hdecrypt : a.role = .worker .decrypt
    · obtain ⟨call, rfl⟩ := Act.decrypt_of_role hdecrypt
      exact step_forDecrypt_decrypt h
    · exact step_forDecrypt_other h hudpRead hdecrypt

end Moves

/-! ## Runs -/

section Runs

variable {configured interval : Duration} {running : Bool} {now : Instant} {G : State → Act → Prop}
  {as : List Act} {log : List Event} {s : State}

theorem start_forDecrypt (running : Bool) (now : Instant) :
    Eventcount.Sound (State.start running now).forDecrypt := by
  refine ⟨fun count hc => ?_, fun count hc => ?_, fun hasleep => hasleep.elim⟩ <;> cases hc

theorem run_forDecrypt (h : (machine configured running now).Run G as log s) :
    Eventcount.Sound s.forDecrypt :=
  h.invariant (fun _ s => Eventcount.Sound s.forDecrypt) (start_forDecrypt running now)
    fun hs _ hstep => sound_of_moves (m := UInt64.size) (step_forDecrypt hstep) hs

/-- A notification ends the wait. -/
theorem wait_notify {signal : SendPath.WorkerSignal} {observed : SendPath.Reading} :
    signal.wait observed = none → signal.notify.wait observed = some () := by
  intro h
  have hvalue : signal.generation.value = observed.value := by
    by_contra hne
    rw [SendPath.WorkerSignal.wait, if_neg hne] at h
    cases h
  refine if_neg fun heq => ?_
  have heq : signal.generation.value + 1 = observed.value := heq
  rw [← hvalue] at heq
  have hnat := congrArg UInt64.toNat heq
  have hlt := signal.generation.value.toNat_lt
  rw [UInt64.toNat_add] at hnat
  simp at hnat
  omega

/-- While the decrypt worker waits for `encrypted_rx` to fill, and fewer than 2⁶⁴
notifications have passed, a datagram is in the queue only if `udp_read` is about
to notify; and then the wait is over. -/
theorem no_datagram_left (h : (machine configured running now).Run G as log s)
    {observed : SendPath.Reading} (hpc : s.decrypt.pc = .wait observed)
    (hwaits : s.shared.progress.wait observed = none)
    (hfew : s.shared.progress.generation.count - observed.count < UInt64.size)
    (hitems : (s.shared.queues .encryptedRx).queue.items ≠ []) :
    s.udpRead = .notify ∧
      ∃ s', step interval s (.udpRead .go) = some (s', []) ∧
        s'.decrypt.pc = .wait observed ∧ s'.shared.progress.wait observed = some () := by
  have hsound := run_forDecrypt h
  have hvalue : s.shared.progress.generation.value = observed.value := by
    by_contra hne
    rw [SendPath.WorkerSignal.wait, if_neg hne] at hwaits
    cases hwaits
  have hreading : s.forDecrypt.phase = .observed observed.count fun _ => True :=
    congrArg DecryptPc.reading hpc
  have hle : observed.count ≤ s.forDecrypt.count :=
    hsound.reading observed.count (by rw [hreading]; rfl)
  have hcount : s.forDecrypt.count = observed.count := by
    have hmod := SendPath.Reading.mod_eq hvalue
    have hzero : (s.shared.progress.generation.count - observed.count) % UInt64.size = 0 :=
      Nat.sub_mod_eq_zero_of_mod_eq hmod
    rw [Nat.mod_eq_of_lt hfew] at hzero
    exact Nat.le_antisymm (Nat.sub_eq_zero_iff_le.mp hzero) hle
  obtain ⟨thread, howed⟩ := hsound.fresh observed.count (by rw [hreading]; rfl) hcount ()
    (by rw [hreading]; exact trivial) hitems
  have hudpRead : s.udpRead = .notify := by
    cases thread with
    | udpRead =>
        by_contra hne
        have hidle : s.forDecrypt.call .udpRead = .idle := if_neg hne
        rw [hidle] at howed
        cases howed
    | tunRead | decrypt | tunWrite | encrypt | udpWrite => cases howed
  refine ⟨hudpRead,
    { s with shared := { s.shared with progress := s.shared.progress.notify }, udpRead := .recv },
    ?_, hpc, wait_notify hwaits⟩
  simp only [step, hudpRead, udpReadStep, Option.map_some]

/-- A datagram arrives while the decrypt worker waits. -/
def wakefulActs : List Act :=
  [.decrypt .go, .decrypt .go, .decrypt .go, .udpRead .go, .udpRead (.poll .ready),
    .udpRead (.recv (.ok [1])), .udpRead .go]

def wakefulSample : State × List Event :=
  (machine (Duration.fromSecs 25) true 0).outcome (fun _ _ => true) wakefulActs

theorem no_datagram_left_sample :
    ∃ s', step (Duration.fromSecs 20) wakefulSample.1 (.udpRead .go) = some (s', []) ∧
      s'.shared.progress.wait SendPath.WorkerSignal.new.generation = some () := by
  have hrun : (machine (Duration.fromSecs 25) true 0).Run Machine.Free wakefulActs
      wakefulSample.2 wakefulSample.1 :=
    Machine.run_outcome (fun _ _ _ => trivial) (by decide +kernel)
  have hpc : wakefulSample.1.decrypt.pc = .wait SendPath.WorkerSignal.new.generation := rfl
  obtain ⟨-, s', hstep, -, hwait⟩ := no_datagram_left hrun hpc
    (by decide +kernel) (by decide +kernel) (by decide +kernel)
  exact ⟨s', hstep, hwait⟩

end Runs

end ClientTunnel

end AutobricksVpn
