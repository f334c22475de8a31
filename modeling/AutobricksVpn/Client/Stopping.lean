/-
# `AutobricksVpn.Client.Stopping` — a connection that is told to stop does stop

Once the main thread has cleared `active`, closed the queues and notified the
decrypt worker, every worker is a bounded number of its own actions away from its
end (`State.rank`), whatever the system and wolfSSL answer and however the
threads interleave; and as long as the main thread is not done, somebody can go
on.  So `run_connection` returns (`winds_up`).

There is one exception.  A decrypt worker that has read the generation of
`dtls_progress` after that last notification, and whose wolfSSL then asks to
write, waits for a notification that nobody gives (`State.Stuck`).
-/
import AutobricksVpn.Client.Outcome
import AutobricksVpn.Client.Carriage
import AutobricksVpn.Client.Wakeful

namespace AutobricksVpn

namespace ClientTunnel

/-! ## The ranks -/

/-- How many actions of its own a worker is from its end, at most, when `active`
is cleared and every queue closed. -/
def UdpReadPc.rank : UdpReadPc → Nat
  | .ended => 0
  | .top | .push _ | .close => 1
  | .send _ => 2
  | .store _ => 3
  | .recv => 4
  | .poll | .notify => 5

def TunReadPc.rank : TunReadPc → Nat
  | .ended => 0
  | .top | .push _ | .close => 1
  | .send _ => 2
  | .store _ => 3
  | .read => 4
  | .poll => 5

def DecryptPc.rank : DecryptPc → Nat
  | .ended => 0
  | .top | .push _ | .send _ => 1
  | .received _ | .store _ | .wait _ | .waitWrite _ => 2
  | .inject _ => 3
  | .next _ => 4
  | .notify _ => 5
  | .read _ => 6
  | .observe => 7

def TunWritePc.rank : TunWritePc → Nat
  | .ended => 0
  | .top | .peek | .leave => 1
  | .peeked | .restore | .send _ => 2
  | .store _ => 3
  | .write => 4

def EncryptPc.rank : EncryptPc → Nat
  | .ended => 0
  | .peek | .leave => 1
  | .top => 2
  | .commit | .restore => 3
  | .close => 4
  | .process | .send _ => 5
  | .peeked | .store _ => 6
  | .write => 7

def UdpWritePc.rank : UdpWritePc → Nat
  | .ended => 0
  | .top | .peek | .leave => 1
  | .peeked | .restore | .notify | .report _ => 2
  | .store _ => 3
  | .send _ => 4
  | .check => 5

def MainPc.rank : MainPc → Nat
  | .cleanup _ rest => rest.length
  | _ => 0

/-- What is left to do, for all threads together. -/
def State.rank (s : State) : Nat :=
  s.udpRead.rank + s.tunRead.rank + s.decrypt.pc.rank + s.tunWrite.rank + s.encrypt.rank +
    s.udpWrite.rank + s.main.pc.rank

/-! ## Closed queues -/

/-- `active` is cleared and every queue closed. -/
structure Shared.Shut (sh : Shared) : Prop where
  active : sh.active = false
  closed : ∀ name, (sh.queues name).queue.closed = true

section Closed

variable {sh sh' : Shared} {name : QueueName} {evs : List (QueueRun.Event name.Item)}

theorem Shared.Shut.continues (h : sh.Shut) : sh.continues = false :=
  continues_false_iff.mpr (.inr h.active)

theorem call_push_closed {x : name.Item} (hclosed : (sh.queues name).queue.closed = true) :
    sh.call name (.push x) = some (sh', evs) → pushAnswer evs = .refused := by
  intro h
  have hstep := call_self h
  rcases Queue.push_cases (sh.queues name).queue ((sh.queues name).pushes, x) with
    ⟨-, hp⟩ | ⟨_, _, _, hopen, -⟩ | ⟨_, hopen, -⟩
  · simp only [QueueRun.step, hp, Option.some.injEq, Prod.mk.injEq] at hstep
    obtain ⟨-, rfl⟩ := hstep
    rfl
  · exact absurd (hopen.symm.trans hclosed) Bool.false_ne_true
  · exact absurd (hopen.symm.trans hclosed) Bool.false_ne_true

theorem call_peek_closed (hclosed : (sh.queues name).queue.closed = true) :
    sh.call name .peek = some (sh', evs) → (sh'.front name).isSome = false := by
  intro h
  obtain ⟨hfront, -, hq | ⟨x, rest, hi, -⟩⟩ := QueueRun.step_reserve (.inl rfl) (call_self h)
  · rw [Shared.front, hq, hfront]
    rfl
  · rw [Queue.drained _ hclosed] at hi
    cases hi

theorem call_tryPop_closed {evs : List (QueueRun.Event Packet)}
    (hclosed : (sh.queues .encryptedRx).queue.closed = true) :
    sh.call .encryptedRx .tryPop = some (sh', evs) → evs = [] := by
  intro h
  obtain ⟨-, ⟨-, hevs⟩ | ⟨x, rest, hi, -⟩⟩ := QueueRun.step_take (.inl rfl) (call_self h)
  · exact hevs
  · rw [Queue.drained _ hclosed] at hi
    cases hi

end Closed

/-! ## Every action of a worker brings it closer to its end -/

section Ranks

variable {sh sh' : Shared} {evs : List Event}

/-- The call was interrupted, and is made again. -/
def UdpReadCall.again : UdpReadCall → Bool
  | .recv (.error error) => error.kind = .interrupted
  | _ => false

theorem udpReadStep_again {pc pc' : UdpReadPc} {call : UdpReadCall} (hcall : call.again = true) :
    udpReadStep sh pc call = some (sh', pc', evs) → pc'.rank = pc.rank := by
  fun_cases udpReadStep sh pc call
  all_goals rintro ⟨⟩
  case case5 error hblocked =>
      have hkind : error.kind = .interrupted := of_decide_eq_true hcall
      rw [hkind] at hblocked
      cases hblocked
  case case6 => rfl
  case case7 hagain => exact absurd (of_decide_eq_true hcall) hagain
  all_goals cases hcall

theorem udpReadStep_rank (hshut : sh.Shut) {pc pc' : UdpReadPc} {call : UdpReadCall}
    (hcall : call.again = false) :
    udpReadStep sh pc call = some (sh', pc', evs) → pc'.rank < pc.rank := by
  fun_cases udpReadStep sh pc call
  all_goals rintro ⟨⟩
  case case1 =>
      rw [hshut.continues]
      decide
  case case2 ready _ => cases ready <;> simp [UdpReadPc.rank]
  case case6 _ hagain => exact absurd hagain (of_decide_eq_false hcall)
  case case9 hpush =>
      rw [if_pos (call_push_closed (hshut.closed _) hpush)]
      simp [UdpReadPc.rank]
  all_goals simp [UdpReadPc.rank]

theorem tunReadStep_rank (hshut : sh.Shut) {pc pc' : TunReadPc} {call : TunReadCall} :
    tunReadStep sh pc call = some (sh', pc', evs) → pc'.rank < pc.rank := by
  fun_cases tunReadStep sh pc call
  all_goals rintro ⟨⟩
  case case1 =>
      rw [hshut.continues]
      decide
  case case6 packet => cases packet <;> simp [TunReadPc.rank]
  case case11 hpush =>
      rw [if_pos (call_push_closed (hshut.closed _) hpush)]
      simp [TunReadPc.rank]
  all_goals simp [TunReadPc.rank]

theorem decryptStep_rank (hshut : sh.Shut) {d d' : Decrypt} {call : DecryptCall} :
    decryptStep sh d call = some (sh', d', evs) → d'.pc.rank < d.pc.rank := by
  fun_cases decryptStep sh d call
  all_goals rintro ⟨⟩
  case case1 hpc =>
      rw [hpc, hshut.continues]
      simp [DecryptPc.rank]
  case case2 hpc =>
      rw [hpc]
      cases d.drain <;> simp [DecryptPc.rank]
  case case3 message hpc =>
      rw [hpc]
      cases isTunnelPacket message <;> simp [DecryptPc.rank]
  case case5 hpc _ hpush =>
      rw [hpc, if_pos (call_push_closed (hshut.closed _) hpush)]
      simp [DecryptPc.rank]
  case case6 hpc | case14 hpc | case15 hpc | case19 hpc | case21 hpc | case22 hpc | case25 hpc
    | case26 hpc =>
      rw [hpc]
      simp [DecryptPc.rank]
  case case7 hpc _ _ | case10 hpc _ _ | case12 hpc _ _ | case20 hpc _ _ =>
      rw [hpc]
      simp [DecryptPc.rank]
  case case9 hpc _ _ hcall =>
      have hclosed := (call_quiet hcall ⟨rfl, rfl⟩ rfl).closed .encryptedRx
      rw [hshut.closed] at hclosed
      rw [hpc, call_tryPop_closed (hshut.closed _) hcall, Queue.isClosed, hclosed]
      show 0 < 4
      decide
  case case23 hpc _ | case27 hpc _ =>
      rw [hpc]
      simp [DecryptPc.rank]

theorem tunWriteStep_rank (hshut : sh.Shut) {pc pc' : TunWritePc} {call : TunWriteCall} :
    tunWriteStep sh pc call = some (sh', pc', evs) → pc'.rank < pc.rank := by
  fun_cases tunWriteStep sh pc call
  all_goals rintro ⟨⟩
  case case1 | case4 =>
      rw [hshut.continues]
      decide
  case case3 hpeek =>
      rw [call_peek_closed (hshut.closed _) hpeek]
      decide
  all_goals simp [TunWritePc.rank]

theorem encryptStep_rank (hshut : sh.Shut) {pc pc' : EncryptPc} {call : EncryptCall} :
    encryptStep sh pc call = some (sh', pc', evs) → pc'.rank < pc.rank := by
  fun_cases encryptStep sh pc call
  all_goals rintro ⟨⟩
  case case1 | case4 => cases sh.encryptStop <;> simp [EncryptPc.rank]
  case case3 hpeek =>
      rw [call_peek_closed (hshut.closed _) hpeek]
      decide
  case case5 =>
      rw [hshut.active]
      decide
  all_goals simp [EncryptPc.rank]

theorem udpWriteStep_rank (hshut : sh.Shut) {pc pc' : UdpWritePc} {call : UdpWriteCall} :
    udpWriteStep sh pc call = some (sh', pc', evs) → pc'.rank < pc.rank := by
  fun_cases udpWriteStep sh pc call
  all_goals rintro ⟨⟩
  case case1 | case4 =>
      rw [hshut.continues]
      decide
  case case3 hpeek =>
      rw [call_peek_closed (hshut.closed _) hpeek]
      decide
  all_goals simp [UdpWritePc.rank]

end Ranks

/-! ## What a consumer holds -/

section Holds

variable {sh sh' : Shared} {evs : List Event}

def TunWritePc.holds : TunWritePc → Bool
  | .top | .peek | .ended => false
  | .peeked | .write | .restore | .store _ | .send _ | .leave => true

def EncryptPc.holds : EncryptPc → Bool
  | .top | .peek | .ended => false
  | .peeked | .process | .write | .restore | .store _ | .send _ | .close | .commit | .leave => true

def UdpWritePc.holds : UdpWritePc → Bool
  | .top | .peek | .notify | .ended => false
  | .peeked | .check | .send _ | .restore | .store _ | .report _ | .leave => true

theorem tunWriteStep_holds {pc pc' : TunWritePc} {call : TunWriteCall}
    (h : (sh.front .tunWrite).isSome = pc.holds) :
    tunWriteStep sh pc call = some (sh', pc', evs) → (sh'.front .tunWrite).isSome = pc'.holds := by
  fun_cases tunWriteStep sh pc call
  all_goals rintro ⟨⟩
  case case1 | case4 => cases sh.continues <;> exact h
  case case3 => cases hfront : (sh'.front .tunWrite).isSome <;> rfl
  case case7 hcall => rw [(call_commit hcall).2.1]; rfl
  case case12 hcall | case16 hcall => rw [(call_restore hcall).2]; rfl
  all_goals exact h

theorem encryptStep_holds {pc pc' : EncryptPc} {call : EncryptCall}
    (h : (sh.front .rawTx).isSome = pc.holds) :
    encryptStep sh pc call = some (sh', pc', evs) → (sh'.front .rawTx).isSome = pc'.holds := by
  fun_cases encryptStep sh pc call
  all_goals rintro ⟨⟩
  case case1 | case4 => cases sh.encryptStop <;> exact h
  case case3 => cases hfront : (sh'.front .rawTx).isSome <;> rfl
  case case5 => cases sh.active <;> exact h
  case case13 hcall | case21 hcall => rw [(call_restore hcall).2]; rfl
  case case17 hcall =>
      rw [Shared.front, call_of_ne (by simp) hcall]
      exact h
  case case19 hcall => rw [(call_commit hcall).2.1]; rfl
  all_goals exact h

theorem udpWriteStep_holds {pc pc' : UdpWritePc} {call : UdpWriteCall}
    (h : (sh.front .encTx).isSome = pc.holds) :
    udpWriteStep sh pc call = some (sh', pc', evs) → (sh'.front .encTx).isSome = pc'.holds := by
  fun_cases udpWriteStep sh pc call
  all_goals rintro ⟨⟩
  case case1 | case4 => cases sh.continues <;> exact h
  case case3 => cases hfront : (sh'.front .encTx).isSome <;> rfl
  case case7 hcall | case11 hcall => rw [(call_commit hcall).2.1]; rfl
  case case17 hcall | case21 hcall => rw [(call_restore hcall).2]; rfl
  all_goals exact h

/-- The decrypt worker reserves nothing. -/
theorem front_encryptedRx {role : Role} (h : Carries role sh sh' evs) :
    (sh.queues .encryptedRx).front = none → (sh'.queues .encryptedRx).front = none := by
  intro hfront
  rcases h.queue .encryptedRx with ⟨hq, -⟩ | ⟨a, hallowed, hstep⟩
  · rw [hq, hfront]
  · cases a with
    | push x =>
        rcases Queue.push_cases (sh.queues .encryptedRx).queue
            ((sh.queues .encryptedRx).pushes, x) with
          ⟨-, hp⟩ | ⟨old, rest, queue, -, -, -, hp, -⟩ | ⟨queue, -, -, hp, -⟩ <;>
          simp only [QueueRun.step, hp, Option.some.injEq, Prod.mk.injEq] at hstep <;>
          obtain ⟨hq, -⟩ := hstep <;> rw [← hq] <;> exact hfront
    | close =>
        obtain ⟨hq, -⟩ := Prod.mk.inj (Option.some.inj hstep)
        rw [← hq]
        exact hfront
    | tryPop =>
        obtain ⟨-, ⟨hq, -⟩ | ⟨x, rest, -, hq, -⟩⟩ := QueueRun.step_take (.inl rfl) hstep <;>
          rw [hq] <;> exact hfront
    | peek | commit | restore => exact absurd rfl hallowed.1
    | notifyChange | pop | popTimeout | tryPeek => exact hallowed.elim

/-- Each consumer has a reservation exactly where its code holds one. -/
structure State.Held (s : State) : Prop where
  encryptedRx : (s.shared.queues .encryptedRx).front = none
  tunWrite : (s.shared.front .tunWrite).isSome = s.tunWrite.holds
  rawTx : (s.shared.front .rawTx).isSome = s.encrypt.holds
  encTx : (s.shared.front .encTx).isSome = s.udpWrite.holds

variable {interval : Duration} {s s' : State} {a : Act}

theorem step_held (h : step interval s a = some (s', evs)) (hs : s.Held) : s'.Held := by
  have hcarries := step_carries h
  have huntouched := step_untouched h
  constructor
  · exact front_encryptedRx hcarries hs.encryptedRx
  · by_cases hrole : a.role = .worker .tunWrite
    · obtain ⟨call, rfl⟩ := Act.tunWrite_of_role hrole
      exact tunWriteStep_holds hs.tunWrite (step_tunWrite h)
    · rw [front_stays .tunWrite hcarries hrole, huntouched.tunWrite hrole]
      exact hs.tunWrite
  · by_cases hrole : a.role = .worker .encrypt
    · obtain ⟨call, rfl⟩ := Act.encrypt_of_role hrole
      exact encryptStep_holds hs.rawTx (step_encrypt h)
    · rw [front_stays .rawTx hcarries hrole, huntouched.encrypt hrole]
      exact hs.rawTx
  · by_cases hrole : a.role = .worker .udpWrite
    · obtain ⟨call, rfl⟩ := Act.udpWrite_of_role hrole
      exact udpWriteStep_holds hs.encTx (step_udpWrite h)
    · rw [front_stays .encTx hcarries hrole, huntouched.udpWrite hrole]
      exact hs.encTx

end Holds

/-! ## Somebody can go on -/

section Progress

variable (sh : Shared) (name : QueueName)

theorem call_push_some (x : name.Item) : ∃ r, sh.call name (.push x) = some r := by
  rcases Queue.push_cases (sh.queues name).queue ((sh.queues name).pushes, x) with
    ⟨-, hp⟩ | ⟨old, rest, queue, -, -, -, hp, -⟩ | ⟨queue, -, -, hp, -⟩ <;>
    simp [Shared.call, QueueRun.step, hp]

theorem call_close_some : ∃ r, sh.call name .close = some r := by
  simp [Shared.call, QueueRun.step]

variable {sh name}

theorem call_peek_some (hclosed : (sh.queues name).queue.closed = true)
    (hfront : (sh.front name).isSome = false) : ∃ r, sh.call name .peek = some r := by
  have hnone : (sh.queues name).front = none := by
    simpa [Shared.front] using hfront
  rcases Queue.pop_cases (sh.queues name).queue with ⟨-, hopen, -⟩ | ⟨-, hp⟩ | ⟨_, _, _, hopen, -⟩
  · exact absurd (hopen.symm.trans hclosed) Bool.false_ne_true
  · simp [Shared.call, QueueRun.step, hnone, Queue.peek, hp]
  · exact absurd (hopen.symm.trans hclosed) Bool.false_ne_true

theorem call_tryPop_some (hfront : (sh.queues name).front = none) :
    ∃ r, sh.call name .tryPop = some r := by
  rcases Queue.tryPop_cases (sh.queues name).queue with
    ⟨x, rest, -, hp⟩ | ⟨-, -, hp⟩ | ⟨-, -, hp⟩ <;>
    simp [Shared.call, QueueRun.step, hfront, hp]

theorem call_resolve_some (hfront : (sh.front name).isSome = true) :
    (∃ r, sh.call name .commit = some r) ∧ ∃ r, sh.call name .restore = some r := by
  cases hf : (sh.queues name).front with
  | none => simp [Shared.front, hf] at hfront
  | some f => simp [Shared.call, QueueRun.step, hf]

theorem udpReadStep_some (sh : Shared) {pc : UdpReadPc} (hpc : pc ≠ .ended) :
    ∃ call r, call.again = false ∧ udpReadStep sh pc call = some r := by
  cases pc with
  | ended => exact absurd rfl hpc
  | top | notify | store | send => exact ⟨.go, _, rfl, rfl⟩
  | poll => exact ⟨.poll .elapsed, _, rfl, rfl⟩
  | recv => exact ⟨.recv (.ok []), _, rfl, rfl⟩
  | push datagram =>
      obtain ⟨r, hr⟩ := call_push_some sh .encryptedRx datagram
      exact ⟨.go, _, rfl, by simp only [udpReadStep, hr]; rfl⟩
  | close =>
      obtain ⟨r, hr⟩ := call_close_some sh .encryptedRx
      exact ⟨.go, _, rfl, by simp only [udpReadStep, hr]; rfl⟩

theorem tunReadStep_some (sh : Shared) {pc : TunReadPc} (hpc : pc ≠ .ended) :
    ∃ call r, tunReadStep sh pc call = some r := by
  cases pc with
  | ended => exact absurd rfl hpc
  | top | store | send => exact ⟨.go, _, rfl⟩
  | poll => exact ⟨.poll .elapsed, _, rfl⟩
  | read => exact ⟨.read (.ok []), _, rfl⟩
  | push packet =>
      obtain ⟨r, hr⟩ := call_push_some sh .rawTx packet
      exact ⟨.go, _, by simp only [tunReadStep, hr]; rfl⟩
  | close =>
      obtain ⟨r, hr⟩ := call_close_some sh .rawTx
      exact ⟨.go, _, by simp only [tunReadStep, hr]; rfl⟩

/-- The decrypt worker waits for a notification. -/
def Decrypt.Waits (sh : Shared) (d : Decrypt) : Prop :=
  ∃ observed, (d.pc = .wait observed ∨ d.pc = .waitWrite observed) ∧
    sh.progress.wait observed = none

theorem decryptStep_some {d : Decrypt} (hpc : d.pc ≠ .ended)
    (hfront : (sh.queues .encryptedRx).front = none) (hwaits : ¬ d.Waits sh) :
    ∃ call r, decryptStep sh d call = some r := by
  have hwait : ∀ observed, d.pc = .wait observed ∨ d.pc = .waitWrite observed →
      ∃ u, sh.progress.wait observed = some u := by
    intro observed hobserved
    cases hw : sh.progress.wait observed with
    | some u => exact ⟨u, rfl⟩
    | none => exact absurd ⟨observed, hobserved, hw⟩ hwaits
  cases hd : d.pc with
  | ended => exact absurd hd hpc
  | top | observe | received | notify | store | send =>
      exact ⟨.go, _, by simp only [decryptStep, hd]; rfl⟩
  | read observed => exact ⟨.read (.ok .wantRead), _, by simp only [decryptStep, hd]; rfl⟩
  | inject datagram => exact ⟨.inject (.ok true), _, by simp only [decryptStep, hd]; rfl⟩
  | push packet =>
      obtain ⟨r, hr⟩ := call_push_some sh .tunWrite packet
      exact ⟨.go, _, by simp only [decryptStep, hd, hr]; rfl⟩
  | next observed =>
      cases hpending : d.pending with
      | some datagram => exact ⟨.go, _, by simp only [decryptStep, hd, hpending]; rfl⟩
      | none =>
          obtain ⟨r, hr⟩ := call_tryPop_some hfront
          exact ⟨.go, _, by simp only [decryptStep, hd, hpending, hr]; rfl⟩
  | wait observed =>
      obtain ⟨u, hu⟩ := hwait observed (.inl hd)
      exact ⟨.go, _, by simp only [decryptStep, hd, hu]; rfl⟩
  | waitWrite observed =>
      obtain ⟨u, hu⟩ := hwait observed (.inr hd)
      exact ⟨.go, _, by simp only [decryptStep, hd, hu]; rfl⟩

theorem tunWriteStep_some {pc : TunWritePc} (hpc : pc ≠ .ended)
    (hclosed : (sh.queues .tunWrite).queue.closed = true)
    (hholds : (sh.front .tunWrite).isSome = pc.holds) :
    ∃ call r, tunWriteStep sh pc call = some r := by
  cases pc with
  | ended => exact absurd rfl hpc
  | top | peeked | store | send => exact ⟨.go, _, rfl⟩
  | peek =>
      obtain ⟨r, hr⟩ := call_peek_some hclosed hholds
      exact ⟨.go, _, by simp only [tunWriteStep, hr]; rfl⟩
  | write =>
      obtain ⟨packet, hpacket⟩ := Option.isSome_iff_exists.mp hholds
      exact ⟨.write (.error notResponding), _, by simp only [tunWriteStep, hpacket]; rfl⟩
  | restore | leave =>
      obtain ⟨r, hr⟩ := (call_resolve_some hholds).2
      exact ⟨.go, _, by simp only [tunWriteStep, hr]; rfl⟩

theorem encryptStep_some {pc : EncryptPc} (hpc : pc ≠ .ended)
    (hclosed : (sh.queues .rawTx).queue.closed = true)
    (hholds : (sh.front .rawTx).isSome = pc.holds) :
    ∃ call r, encryptStep sh pc call = some r := by
  cases pc with
  | ended => exact absurd rfl hpc
  | top | peeked | process | store | send => exact ⟨.go, _, rfl⟩
  | peek =>
      obtain ⟨r, hr⟩ := call_peek_some hclosed hholds
      exact ⟨.go, _, by simp only [encryptStep, hr]; rfl⟩
  | write =>
      obtain ⟨packet, hpacket⟩ := Option.isSome_iff_exists.mp hholds
      exact ⟨.write (.ok .wantRead), _, by simp only [encryptStep, hpacket]; rfl⟩
  | close =>
      obtain ⟨r, hr⟩ := call_close_some sh .encryptedRx
      exact ⟨.go, _, by simp only [encryptStep, hr]; rfl⟩
  | commit =>
      obtain ⟨r, hr⟩ := (call_resolve_some hholds).1
      exact ⟨.go, _, by simp only [encryptStep, hr]; rfl⟩
  | restore | leave =>
      obtain ⟨r, hr⟩ := (call_resolve_some hholds).2
      exact ⟨.go, _, by simp only [encryptStep, hr]; rfl⟩

theorem udpWriteStep_some {pc : UdpWritePc} (hpc : pc ≠ .ended)
    (hclosed : (sh.queues .encTx).queue.closed = true)
    (hholds : (sh.front .encTx).isSome = pc.holds) :
    ∃ call r, udpWriteStep sh pc call = some r := by
  cases pc with
  | ended => exact absurd rfl hpc
  | top | peeked | notify | store | report => exact ⟨.go, _, rfl⟩
  | peek =>
      obtain ⟨r, hr⟩ := call_peek_some hclosed hholds
      exact ⟨.go, _, by simp only [udpWriteStep, hr]; rfl⟩
  | check =>
      obtain ⟨datagram, hdatagram⟩ := Option.isSome_iff_exists.mp hholds
      obtain ⟨r, hr⟩ := (call_resolve_some hholds).1
      by_cases hold : DATAGRAM_TTL ≤ sh.now - datagram.2.enqueuedAt
      · exact ⟨.go, _, by simp only [udpWriteStep, hdatagram, if_pos hold, hr]; rfl⟩
      · exact ⟨.go, _, by simp only [udpWriteStep, hdatagram, if_neg hold]; rfl⟩
  | send looked =>
      obtain ⟨datagram, hdatagram⟩ := Option.isSome_iff_exists.mp hholds
      exact ⟨.send (.error notResponding), _, by simp only [udpWriteStep, hdatagram]; rfl⟩
  | restore | leave =>
      obtain ⟨r, hr⟩ := (call_resolve_some hholds).2
      exact ⟨.go, _, by simp only [udpWriteStep, hr]; rfl⟩

end Progress

/-! ## The connection as a whole -/

/-- The actions of the client's own threads, but for a `recv` that is made again. -/
def Act.moves : Act → Bool
  | .tick _ | .interrupt | .dtlsSend _ => false
  | .udpRead call => !call.again
  | .tunRead _ | .decrypt _ | .tunWrite _ | .encrypt _ | .udpWrite _ | .main => true

/-- The main thread has given its last notification. -/
structure State.Notified (s : State) : Prop where
  cleaned : s.Cleaned
  shut : s.shared.Shut
  cleanup : ∃ result rest, s.main.pc = .cleanup result rest ∧ Cleanup.notify ∉ rest

section Whole

variable {interval : Duration} {s s' : State} {a : Act} {evs : List Event}

theorem close_mem_before {before rest : List Cleanup} (h : before ++ rest = cleanup)
    (hnotify : Cleanup.notify ∉ rest) (name : QueueName) :
    Cleanup.store ∈ before ∧ Cleanup.close name ∈ before := by
  have htake : before = cleanup.take before.length := by rw [← h, List.take_left]
  have hlength : 6 ≤ before.length := by
    by_contra hlt
    have hshort : before.length ≤ 5 := Nat.le_of_lt_succ (Nat.lt_of_not_le hlt)
    have hmem : Cleanup.notify ∈ before ++ rest := h ▸ mem_cleanup _
    have hbefore := (List.mem_append.mp hmem).resolve_right hnotify
    rw [htake] at hbefore
    have hfive : Cleanup.notify ∈ cleanup.take 5 :=
      (List.take_subset_take_left cleanup hshort) hbefore
    exact absurd hfive (by decide)
  have hsix : ∀ op ∈ cleanup.take 6, op ∈ before := by
    intro op hop
    rw [htake]
    exact (List.take_subset_take_left cleanup hlength) hop
  exact ⟨hsix _ (by decide), hsix _ (by cases name <;> decide)⟩

theorem shut_of_notified (hcleaned : s.Cleaned) {result : Except IoError Unit}
    {rest : List Cleanup} (hpc : s.main.pc = .cleanup result rest)
    (hnotify : Cleanup.notify ∉ rest) : s.shared.Shut := by
  obtain ⟨before, hbefore, hdone⟩ := hcleaned result rest hpc
  exact
    { active := hdone _ (close_mem_before hbefore hnotify .rawTx).1
      closed := fun name => hdone _ (close_mem_before hbefore hnotify name).2 }

theorem step_notified (h : step interval s a = some (s', evs)) (hs : s.Notified) : s'.Notified := by
  have hcleaned := (step_effect h).cleaned hs.cleaned
  obtain ⟨result, rest, hpc, hnotify⟩ := hs.cleanup
  have hcleanup : ∃ rest', s'.main.pc = .cleanup result rest' ∧ Cleanup.notify ∉ rest' := by
    by_cases hrole : a.role = .main
    · obtain rfl := Act.main_of_role hrole
      have heffect := mainStep_effect (step_main h)
      rw [hpc] at heffect
      generalize s'.main.pc = pc' at heffect
      cases heffect with
      | work hloops | leave hloops => exact hloops.elim
      | cleanup => exact ⟨_, rfl, fun hmem => hnotify (List.mem_cons_of_mem _ hmem)⟩
    · rw [(step_untouched h).main hrole]
      exact ⟨rest, hpc, hnotify⟩
  obtain ⟨rest', hpc', hnotify'⟩ := hcleanup
  exact ⟨hcleaned, shut_of_notified hcleaned hpc' hnotify', result, rest', hpc', hnotify'⟩

theorem mainStep_rank {result : Except IoError Unit} {rest : List Cleanup}
    (hpc : s.main.pc = .cleanup result rest) (h : step interval s .main = some (s', evs)) :
    s'.main.pc.rank < s.main.pc.rank := by
  have heffect := mainStep_effect (step_main h)
  rw [hpc] at heffect ⊢
  generalize s'.main.pc = pc' at heffect
  cases heffect with
  | work hloops | leave hloops => exact hloops.elim
  | cleanup => exact Nat.lt_succ_self _

/-- What the threads do brings the connection closer to its end. -/
theorem step_rank (h : step interval s a = some (s', evs)) (hs : s.Notified) :
    (a.moves = true → s'.rank < s.rank) ∧ (a.moves = false → s'.rank ≤ s.rank) := by
  have hu := step_untouched h
  obtain ⟨result, rest, hpc, -⟩ := hs.cleanup
  cases a with
  | tick | interrupt | dtlsSend =>
      refine ⟨fun hown => (by cases hown), fun _ => Nat.le_of_eq ?_⟩
      simp only [State.rank, hu.udpRead (by simp [Act.role]),
        hu.tunRead (by simp [Act.role]), hu.decrypt (by simp [Act.role]),
        hu.tunWrite (by simp [Act.role]), hu.encrypt (by simp [Act.role]),
        hu.udpWrite (by simp [Act.role]), hu.main (by simp [Act.role])]
  | udpRead call =>
      have hrest : s'.rank + s.udpRead.rank = s.rank + s'.udpRead.rank := by
        simp only [State.rank, hu.tunRead (by simp [Act.role]), hu.decrypt (by simp [Act.role]),
          hu.tunWrite (by simp [Act.role]), hu.encrypt (by simp [Act.role]), hu.udpWrite (by simp [Act.role]),
          hu.main (by simp [Act.role])]
        omega
      cases hcall : call.again with
      | true =>
          have heq := udpReadStep_again hcall (step_udpRead h)
          refine ⟨fun hmoves => ?_, fun _ => by omega⟩
          rw [Act.moves, hcall] at hmoves
          cases hmoves
      | false =>
          have hlt := udpReadStep_rank hs.shut hcall (step_udpRead h)
          exact ⟨fun _ => by omega, fun _ => by omega⟩
  | tunRead call =>
      have hlt := tunReadStep_rank hs.shut (step_tunRead h)
      refine ⟨fun _ => ?_, fun hown => (by cases hown)⟩
      simp only [State.rank, hu.udpRead (by simp [Act.role]), hu.decrypt (by simp [Act.role]),
        hu.tunWrite (by simp [Act.role]), hu.encrypt (by simp [Act.role]), hu.udpWrite (by simp [Act.role]),
        hu.main (by simp [Act.role])]
      omega
  | decrypt call =>
      have hlt := decryptStep_rank hs.shut (step_decrypt h)
      refine ⟨fun _ => ?_, fun hown => (by cases hown)⟩
      simp only [State.rank, hu.udpRead (by simp [Act.role]), hu.tunRead (by simp [Act.role]),
        hu.tunWrite (by simp [Act.role]), hu.encrypt (by simp [Act.role]), hu.udpWrite (by simp [Act.role]),
        hu.main (by simp [Act.role])]
      omega
  | tunWrite call =>
      have hlt := tunWriteStep_rank hs.shut (step_tunWrite h)
      refine ⟨fun _ => ?_, fun hown => (by cases hown)⟩
      simp only [State.rank, hu.udpRead (by simp [Act.role]), hu.tunRead (by simp [Act.role]),
        hu.decrypt (by simp [Act.role]), hu.encrypt (by simp [Act.role]), hu.udpWrite (by simp [Act.role]),
        hu.main (by simp [Act.role])]
      omega
  | encrypt call =>
      have hlt := encryptStep_rank hs.shut (step_encrypt h)
      refine ⟨fun _ => ?_, fun hown => (by cases hown)⟩
      simp only [State.rank, hu.udpRead (by simp [Act.role]), hu.tunRead (by simp [Act.role]),
        hu.decrypt (by simp [Act.role]), hu.tunWrite (by simp [Act.role]), hu.udpWrite (by simp [Act.role]),
        hu.main (by simp [Act.role])]
      omega
  | udpWrite call =>
      have hlt := udpWriteStep_rank hs.shut (step_udpWrite h)
      refine ⟨fun _ => ?_, fun hown => (by cases hown)⟩
      simp only [State.rank, hu.udpRead (by simp [Act.role]), hu.tunRead (by simp [Act.role]),
        hu.decrypt (by simp [Act.role]), hu.tunWrite (by simp [Act.role]), hu.encrypt (by simp [Act.role]),
        hu.main (by simp [Act.role])]
      omega
  | main =>
      have hlt := mainStep_rank hpc h
      refine ⟨fun _ => ?_, fun hown => (by cases hown)⟩
      simp only [State.rank, hu.udpRead (by simp [Act.role]), hu.tunRead (by simp [Act.role]),
        hu.decrypt (by simp [Act.role]), hu.tunWrite (by simp [Act.role]), hu.encrypt (by simp [Act.role]),
        hu.udpWrite (by simp [Act.role])]
      omega

/-- The decrypt worker waits for a notification of the UDP writer, and none has
been given since it read the generation. -/
def State.Stuck (s : State) : Prop :=
  ∃ observed, s.decrypt.pc = .waitWrite observed ∧ s.shared.progress.wait observed = none

/-- A decrypt worker that waits for `encrypted_rx` to fill has been notified. -/
def State.Woken (s : State) : Prop :=
  ∀ observed, s.decrypt.pc = .wait observed →
    observed.count < s.shared.progress.generation.count

theorem progress_count_le {role : Role} {sh sh' : Shared} (h : Carries role sh sh' evs) :
    sh.progress.generation.count ≤ sh'.progress.generation.count := by
  rcases h.progress with hprogress | hprogress
  · rw [hprogress]
  · rw [hprogress]
    exact Nat.le_succ _

/-- On a closed queue the decrypt worker ends rather than wait. -/
theorem decryptStep_wait {sh sh' : Shared} (hshut : sh.Shut) {d d' : Decrypt} {call : DecryptCall}
    {observed : SendPath.Reading} :
    decryptStep sh d call = some (sh', d', evs) → d'.pc ≠ .wait observed := by
  fun_cases decryptStep sh d call
  all_goals rintro ⟨⟩
  case case1 => cases sh.continues <;> simp
  case case2 => cases d.drain <;> simp
  case case3 => dsimp only; split <;> simp
  case case5 => dsimp only; split <;> simp
  case case9 hcall =>
      have hclosed := (call_quiet hcall ⟨rfl, rfl⟩ rfl).closed .encryptedRx
      rw [hshut.closed] at hclosed
      rw [call_tryPop_closed (hshut.closed _) hcall, Queue.isClosed, hclosed]
      show DecryptPc.ended ≠ _
      simp
  all_goals simp

theorem step_woken (h : step interval s a = some (s', evs)) (hshut : s.shared.Shut)
    (hs : s.Woken) : s'.Woken := by
  intro observed hpc
  by_cases hrole : a.role = .worker .decrypt
  · obtain ⟨call, rfl⟩ := Act.decrypt_of_role hrole
    exact absurd hpc (decryptStep_wait hshut (step_decrypt h))
  · rw [(step_untouched h).decrypt hrole] at hpc
    exact Nat.lt_of_lt_of_le (hs observed hpc) (progress_count_le (step_carries h))

end Whole

/-! ## Runs -/

section Runs

variable {configured : Duration} {running : Bool} {now : Instant} {G : State → Act → Prop}
  {as : List Act} {log : List Event} {s : State}

theorem run_held (h : (machine configured running now).Run G as log s) : s.Held :=
  h.invariant (fun _ s => s.Held) ⟨rfl, rfl, rfl, rfl⟩ fun hs _ hstep => step_held hstep hs

theorem notify_of_cons {op : Cleanup} {rest : List Cleanup}
    (hmem : Cleanup.notify ∈ op :: rest) (hnotify : Cleanup.notify ∉ rest) : op = .notify :=
  ((List.mem_cons.mp hmem).resolve_right hnotify).symm

/-- The last notification has woken the decrypt worker. -/
theorem run_woken (h : (machine configured running now).Run G as log s)
    {result : Except IoError Unit} {rest : List Cleanup} (hpc : s.main.pc = .cleanup result rest)
    (hnotify : Cleanup.notify ∉ rest) : s.Woken := by
  have hboth : ∀ {as log s}, (machine configured running now).Run G as log s →
      s.Sound log ∧ Eventcount.Sound s.forDecrypt := fun h => ⟨run_sound h, run_forDecrypt h⟩
  refine h.invariant₂ (fun log s => s.Sound log ∧ Eventcount.Sound s.forDecrypt)
    (fun _ s => ∀ result rest, s.main.pc = .cleanup result rest → Cleanup.notify ∉ rest → s.Woken)
    hboth (fun _ _ hpc => by cases hpc) ?_ result rest hpc hnotify
  intro log s a s' evs ⟨hsound, hcount⟩ hs _ hstep result rest hpc hnotify
  have hstep : step (effectiveKeepaliveInterval configured) s a = some (s', evs) := hstep
  by_cases hrole : a.role = .main
  · obtain rfl := Act.main_of_role hrole
    have heffect := mainStep_effect (step_main hstep)
    rw [hpc] at heffect
    generalize hbefore : s.main.pc = before at heffect
    generalize hsh : s'.shared = sh' at heffect
    cases heffect with
    | work _ hloops => exact hloops.elim
    | leave | receive => exact absurd (mem_cleanup _) hnotify
    | @cleanup _ op _ _ _ hop =>
        by_cases hmem : Cleanup.notify ∈ op :: rest
        · obtain rfl := notify_of_cons hmem hnotify
          obtain ⟨rfl, -⟩ := Prod.mk.inj (Option.some.inj hop)
          intro observed hwait
          rw [(step_untouched hstep).decrypt (by simp [Act.role])] at hwait
          have hle : observed.count ≤ s.shared.progress.generation.count :=
            hcount.reading observed.count (by
              show s.decrypt.pc.reading.reading = _
              rw [hwait]
              rfl)
          rw [hsh]
          exact Nat.lt_succ_of_le hle
        · exact step_woken hstep (shut_of_notified hsound.cleaned hbefore hmem)
            (hs result _ hbefore hmem)
  · have hmain : s.main.pc = .cleanup result rest := by
      rw [← (step_untouched hstep).main hrole]
      exact hpc
    exact step_woken hstep (shut_of_notified hsound.cleaned hmain hnotify)
      (hs result rest hmain hnotify)

/-- A reading that is out of date, but by fewer than 2⁶⁴, does not block. -/
theorem wait_some {signal : SendPath.WorkerSignal} {observed : SendPath.Reading}
    (hlt : observed.count < signal.generation.count)
    (hfew : signal.generation.count - observed.count < UInt64.size) :
    signal.wait observed = some () := by
  refine if_neg fun hvalue => ?_
  have hzero : (signal.generation.count - observed.count) % UInt64.size = 0 :=
    Nat.sub_mod_eq_zero_of_mod_eq (SendPath.Reading.mod_eq hvalue)
  rw [Nat.mod_eq_of_lt hfew] at hzero
  omega

theorem not_waits (hwoken : s.Woken) (hstuck : ¬ s.Stuck)
    (hfew : ∀ observed, s.decrypt.pc = .wait observed →
      s.shared.progress.generation.count - observed.count < UInt64.size) :
    ¬ s.decrypt.Waits s.shared := by
  rintro ⟨observed, hpc | hpc, hwait⟩
  · rw [wait_some (hwoken observed hpc) (hfew observed hpc)] at hwait
    cases hwait
  · exact hstuck ⟨observed, hpc, hwait⟩

theorem cleanupStep_some (op : Cleanup) (hended : ∀ thread, s.ended thread = true) :
    ∃ r, cleanupStep s.ended s.shared op = some r := by
  cases op with
  | store | notify | stopEncrypt => exact ⟨_, rfl⟩
  | close name =>
      obtain ⟨r, hr⟩ := call_close_some s.shared name
      exact ⟨_, by simp only [cleanupStep, hr]; rfl⟩
  | join thread => exact ⟨_, if_pos (hended thread)⟩

/-- Whoever has not ended can go on, but for a stuck decrypt worker; and when all
have ended the main thread can. -/
theorem some_step {interval : Duration} (hs : s.Notified) (hheld : s.Held)
    (hwaits : ¬ s.decrypt.Waits s.shared) :
    s.main.pc.rank = 0 ∨ ∃ a r, a.moves = true ∧ step interval s a = some r := by
  by_cases hudpRead : s.udpRead = .ended
  swap
  · obtain ⟨call, r, hagain, hr⟩ := udpReadStep_some s.shared hudpRead
    exact .inr ⟨.udpRead call, _, by rw [Act.moves, hagain]; rfl, by rw [step, hr]; rfl⟩
  by_cases htunRead : s.tunRead = .ended
  swap
  · obtain ⟨call, r, hr⟩ := tunReadStep_some s.shared htunRead
    exact .inr ⟨.tunRead call, _, rfl, by rw [step, hr]; rfl⟩
  by_cases hdecrypt : s.decrypt.pc = .ended
  swap
  · obtain ⟨call, r, hr⟩ := decryptStep_some hdecrypt hheld.encryptedRx hwaits
    exact .inr ⟨.decrypt call, _, rfl, by rw [step, hr]; rfl⟩
  by_cases htunWrite : s.tunWrite = .ended
  swap
  · obtain ⟨call, r, hr⟩ := tunWriteStep_some htunWrite (hs.shut.closed _) hheld.tunWrite
    exact .inr ⟨.tunWrite call, _, rfl, by rw [step, hr]; rfl⟩
  by_cases hencrypt : s.encrypt = .ended
  swap
  · obtain ⟨call, r, hr⟩ := encryptStep_some hencrypt (hs.shut.closed _) hheld.rawTx
    exact .inr ⟨.encrypt call, _, rfl, by rw [step, hr]; rfl⟩
  by_cases hudpWrite : s.udpWrite = .ended
  swap
  · obtain ⟨call, r, hr⟩ := udpWriteStep_some hudpWrite (hs.shut.closed _) hheld.encTx
    exact .inr ⟨.udpWrite call, _, rfl, by rw [step, hr]; rfl⟩
  have hended : ∀ thread, s.ended thread = true := by
    intro thread
    rw [ended_iff]
    cases thread <;>
      simp [State.phase, hudpRead, htunRead, hdecrypt, htunWrite, hencrypt, hudpWrite,
        UdpReadPc.phase, TunReadPc.phase, DecryptPc.phase, TunWritePc.phase, EncryptPc.phase,
        UdpWritePc.phase]
  obtain ⟨result, rest, hpc, -⟩ := hs.cleanup
  cases rest with
  | nil => exact .inl (by rw [hpc]; rfl)
  | cons op rest =>
      obtain ⟨r, hr⟩ := cleanupStep_some op hended
      exact .inr ⟨.main, _, rfl, by simp only [step, mainStep, hpc, hr]; rfl⟩

theorem rank_le (hs : s.Notified) : s.rank ≤ 47 := by
  obtain ⟨result, rest, hpc, -⟩ := hs.cleanup
  have hmain : s.main.pc.rank ≤ 14 := by
    rw [hpc]
    exact (hs.cleaned.suffix hpc).length_le
  have hudpRead : s.udpRead.rank ≤ 5 := by cases s.udpRead <;> simp [UdpReadPc.rank]
  have htunRead : s.tunRead.rank ≤ 5 := by cases s.tunRead <;> simp [TunReadPc.rank]
  have hdecrypt : s.decrypt.pc.rank ≤ 7 := by cases s.decrypt.pc <;> simp [DecryptPc.rank]
  have htunWrite : s.tunWrite.rank ≤ 4 := by cases s.tunWrite <;> simp [TunWritePc.rank]
  have hencrypt : s.encrypt.rank ≤ 7 := by cases s.encrypt <;> simp [EncryptPc.rank]
  have hudpWrite : s.udpWrite.rank ≤ 5 := by cases s.udpWrite <;> simp [UdpWritePc.rank]
  rw [State.rank]
  omega

/-- After its last notification the main thread is done in a bounded number of
actions of the client's threads, calls of `recv` that are made again apart, whatever the
system and wolfSSL answer and whoever goes first; and until then somebody can go on,
unless the decrypt worker waits for a notification of the UDP writer that is not to
come. -/
theorem winds_up (h : (machine configured running now).Run G as log s)
    {result : Except IoError Unit} {rest : List Cleanup} (hpc : s.main.pc = .cleanup result rest)
    (hnotify : Cleanup.notify ∉ rest)
    (hfew : ∀ observed, s.decrypt.pc = .wait observed →
      s.shared.progress.generation.count - observed.count < UInt64.size) :
    (∀ bs log' s', ((machine configured running now).startedAt s).Run Machine.Free bs log' s' →
      (bs.filter Act.moves).length ≤ 47) ∧
    (rest = [] ∨ s.Stuck ∨
      ∃ a r, a.moves = true ∧ (machine configured running now).step s a = some r) := by
  have hsound := run_sound h
  have hnotified : s.Notified :=
    ⟨hsound.cleaned, shut_of_notified hsound.cleaned hpc hnotify, result, rest, hpc, hnotify⟩
  constructor
  · intro bs log' s' hrun
    obtain ⟨-, hranked⟩ := hrun.ranked (fun s => s.Notified) State.rank Act.moves hnotified
      (fun hs _ hstep => step_notified hstep hs)
      (fun hs _ hstep => (step_rank hstep hs).1)
      fun hs _ hstep => (step_rank hstep hs).2
    have hle := rank_le hnotified
    exact Nat.le_trans (Nat.le_trans (Nat.le_add_left _ _) hranked) hle
  · by_cases hstuck : s.Stuck
    · exact .inr (.inl hstuck)
    · rcases some_step hnotified (run_held h) (not_waits (run_woken h hpc hnotify) hstuck hfew) with
        hrank | hstep
      · rw [hpc] at hrank
        exact .inl (List.length_eq_zero_iff.mp hrank)
      · exact .inr (.inr hstep)

/-- The user interrupts the client; the main thread leaves its loop and gives its
last notification, while `udp_read` is at its `recv`. -/
def windingActs : List Act :=
  [.udpRead .go, .udpRead (.poll .ready), .interrupt, .main, .main, .main, .main, .main, .main,
    .main]

def windingSample : State × List Event :=
  (machine (Duration.fromSecs 25) true 0).outcome (fun _ _ => true) windingActs

/-- The `recv` is interrupted once; then every thread ends and is joined. -/
def endingActs : List Act :=
  [.udpRead (.recv (.error (IoError.new .interrupted "EINTR"))),
    .udpRead (.recv (.error (IoError.new .wouldBlock "EAGAIN"))), .udpRead .go, .tunRead .go,
    .decrypt .go, .tunWrite .go, .udpWrite .go, .main, .main, .main, .encrypt .go, .main, .main,
    .main, .main, .main]

def endedSample : State × List Event :=
  ((machine (Duration.fromSecs 25) true 0).startedAt windingSample.1).outcome (fun _ _ => true)
    endingActs

theorem winds_up_sample :
    (endingActs.filter Act.moves).length ≤ 47 ∧
    ∃ a r, a.moves = true ∧
      (machine (Duration.fromSecs 25) true 0).step windingSample.1 a = some r := by
  have hrun : (machine (Duration.fromSecs 25) true 0).Run Machine.Free windingActs
      windingSample.2 windingSample.1 :=
    Machine.run_outcome (fun _ _ _ => trivial) (by decide +kernel)
  have hpc : windingSample.1.main.pc = .cleanup (.ok ()) (cleanup.drop 6) := rfl
  have hdecrypt : windingSample.1.decrypt.pc = .top := rfl
  have hfew : ∀ observed, windingSample.1.decrypt.pc = .wait observed →
      windingSample.1.shared.progress.generation.count - observed.count < UInt64.size := by
    intro observed hwait
    rw [hdecrypt] at hwait
    cases hwait
  obtain ⟨hbound, hgoes⟩ := winds_up hrun hpc (by decide) hfew
  constructor
  · have hending : ((machine (Duration.fromSecs 25) true 0).startedAt windingSample.1).Run
        Machine.Free endingActs endedSample.2 endedSample.1 :=
      Machine.run_outcome (fun _ _ _ => trivial) (by decide +kernel)
    exact hbound endingActs _ _ hending
  · rcases hgoes with hrest | ⟨observed, hwait, -⟩ | hstep
    · exact absurd hrest (by decide)
    · rw [hdecrypt] at hwait
      cases hwait
    · exact hstep

end Runs

end ClientTunnel

end AutobricksVpn
