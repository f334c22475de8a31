/-
# `AutobricksVpn.Client.Carriage` — what a connected client carries

The six workers and the main thread interleave as they like, and between the
socket and the TUN device there are four bounded queues that drop.  What comes
out at the other end is what went in, with gaps:

    datagrams of the server      ⊒  datagrams that wolfSSL has taken
    packets of the server        ⊒  packets written to the TUN device
    packets of the TUN device,
      and keepalives             ⊒  packets that wolfSSL has encrypted
    datagrams of wolfSSL         ⊒  datagrams sent

Each line holds with the position of every item in its source (`Stamped`), so
nothing is doubled and nothing overtaken.  On the first line nothing is missing
but what the counter of dropped datagrams says.
-/
import AutobricksVpn.Client.Workers
import AutobricksVpn.Base.QueueStamps
import AutobricksVpn.Base.QueueOverflow

namespace AutobricksVpn

namespace ClientTunnel

open QueueRun (pushed delivered returned)

/-! ## What the log shows -/

def Event.arrival : Event → Option Packet
  | .arrived datagram => some datagram
  | _ => none

def Event.injection : Event → Option (Nat × Packet)
  | .injected datagram => some datagram
  | _ => none

def Event.message : Event → Option Packet
  | .plaintext message => some message
  | _ => none

def Event.tunPacket : Event → Option (Nat × Packet)
  | .wroteTun packet => some packet
  | _ => none

def Event.offer : Event → Option Packet
  | .offered packet => some packet
  | _ => none

def Event.encryption : Event → Option (Nat × Packet)
  | .wroteDtls packet => some packet
  | _ => none

def Event.departure : Event → Option ((Nat × EncryptedDatagram) × Instant)
  | .sent datagram looked => some (datagram, looked)
  | _ => none

/-- The datagrams of the server. -/
def arrivals (log : List Event) : List Packet := log.filterMap Event.arrival

/-- The datagrams that wolfSSL has taken. -/
def injections (log : List Event) : List (Nat × Packet) := log.filterMap Event.injection

/-- The packets of the server: what wolfSSL has decrypted, without keepalives and
what is no packet. -/
def tunnelPackets (log : List Event) : List Packet :=
  (log.filterMap Event.message).filter isTunnelPacket

/-- The packets written to the TUN device. -/
def tunPackets (log : List Event) : List (Nat × Packet) := log.filterMap Event.tunPacket

/-- The packets of the TUN device, and the keepalives. -/
def offers (log : List Event) : List Packet := log.filterMap Event.offer

/-- The packets that wolfSSL has encrypted. -/
def encryptions (log : List Event) : List (Nat × Packet) := log.filterMap Event.encryption

/-- The datagrams that wolfSSL has handed to `dtls_send`. -/
def produced (log : List Event) : List EncryptedDatagram := pushed (queueLog .encTx log)

/-- The datagrams sent, with the time of the last look at their age. -/
def departures (log : List Event) : List ((Nat × EncryptedDatagram) × Instant) :=
  log.filterMap Event.departure

/-! ## Events of others -/

section Others

variable {role : Role} {evs : List Event}

theorem mem_queueLog {name : QueueName} {event : QueueRun.Event name.Item} :
    event ∈ queueLog name evs → .queue name event ∈ evs := by
  intro h
  obtain ⟨e, he, hevent⟩ := List.mem_filterMap.mp h
  cases e with
  | queue name' event' =>
      simp only [Event.onQueue] at hevent
      split at hevent
      · rename_i hname
        subst hname
        cases hevent
        exact he
      · cases hevent
  | _ => cases hevent

theorem filterMap_nil {β : Type} {f : Event → Option β} (hby : ∀ event ∈ evs, event.By role)
    (hf : ∀ event : Event, event.By role → f event = none) : evs.filterMap f = [] :=
  List.filterMap_eq_nil_iff.mpr fun event hevent => hf event (hby event hevent)

theorem delivered_nil (name : QueueName) (hby : ∀ event ∈ evs, event.By role) (hne : role ≠ name.consumer) :
    delivered (queueLog name evs) = [] := by
  refine List.filterMap_eq_nil_iff.mpr fun event hevent => ?_
  have hevent := hby _ (mem_queueLog hevent)
  cases event with
  | delivered item => exact absurd hevent hne
  | accepted | refused | returned | discarded => rfl

theorem pushed_nil (name : QueueName) (hby : ∀ event ∈ evs, event.By role) (hnot : ¬ name.FedBy role) :
    pushed (queueLog name evs) = [] := by
  refine List.filterMap_eq_nil_iff.mpr fun event hevent => ?_
  have hevent := hby _ (mem_queueLog hevent)
  cases event with
  | accepted item | refused item => exact absurd hevent hnot
  | delivered | returned | discarded => rfl

theorem returned_nil (name : QueueName) (hby : ∀ event ∈ evs, event.By role) (hnot : ¬ name.FedBy role) :
    returned (queueLog name evs) = [] := by
  refine List.filterMap_eq_nil_iff.mpr fun event hevent => ?_
  have hevent := hby _ (mem_queueLog hevent)
  cases event with
  | returned item => exact absurd hevent hnot
  | delivered | accepted | refused | discarded => rfl

end Others

/-! ## Calls -/

section Calls

variable {sh sh' : Shared} {name : QueueName} {evs : List (QueueRun.Event name.Item)}

theorem call_push {x : name.Item} :
    sh.call name (.push x) = some (sh', evs) →
    pushed evs = [x] ∧ delivered evs = [] ∧ (pushAnswer evs).dropped = (returned evs).length := by
  intro h
  have hstep := call_self h
  rcases Queue.push_cases (sh.queues name).queue ((sh.queues name).pushes, x) with
    ⟨-, hp⟩ | ⟨old, rest, queue, -, -, -, hp, -⟩ | ⟨queue, -, -, hp, -⟩ <;>
    simp only [QueueRun.step, hp, Option.some.injEq, Prod.mk.injEq] at hstep <;>
    obtain ⟨-, rfl⟩ := hstep <;> exact ⟨rfl, rfl, rfl⟩

/-- The reserved item is taken out. -/
theorem call_commit :
    sh.call name .commit = some (sh', evs) →
    (sh.front name).toList = delivered evs ∧ sh'.front name = none ∧
      ∃ x, sh.front name = some x ∧ evs = [.delivered x] := by
  intro h
  have hstep := call_self h
  cases hf : (sh.queues name).front with
  | none => simp [QueueRun.step, hf] at hstep
  | some f =>
      simp only [QueueRun.step, hf, Option.some.injEq, Prod.mk.injEq] at hstep
      obtain ⟨hqueue, rfl⟩ := hstep
      have hfront : sh.front name = some f.item := by rw [Shared.front, hf]; rfl
      refine ⟨by rw [hfront]; rfl, ?_, f.item, hfront, rfl⟩
      rw [Shared.front, ← hqueue]
      rfl

theorem call_restore :
    sh.call name .restore = some (sh', evs) → delivered evs = [] ∧ sh'.front name = none := by
  intro h
  have hstep := call_self h
  simp only [QueueRun.step] at hstep
  split at hstep
  · obtain ⟨hqueue, rfl⟩ := Prod.mk.inj (Option.some.inj hstep)
    refine ⟨QueueRun.delivered_map_discarded _, ?_⟩
    rw [Shared.front, ← hqueue]
    rfl
  · cases hstep

end Calls

section Marks

variable {name : QueueName} {β : Type} {f : Event → Option β}

theorem filterMap_map_nil (hf : ∀ event, f (.queue name event) = none)
    (evs : List (QueueRun.Event name.Item)) : (evs.map (Event.queue name)).filterMap f = [] := by
  rw [List.filterMap_map, List.filterMap_eq_nil_iff]
  exact fun event _ => hf event

/-- A call with one event before it that is about no queue. -/
theorem queueLog_mark {event : Event} (hevent : ∀ name, event.onQueue name = none)
    (evs : List (QueueRun.Event name.Item)) :
    queueLog name (event :: evs.map (.queue name)) = evs :=
  (queueLog_cons hevent _).trans (queueLog_map evs)

end Marks

/-! ## From the server -/

section Inbound

variable {role : Role} {sh sh' : Shared} {s s' : State} {evs log : List Event}

/-- A packet of the server that has not been handed to its queue. -/
def DecryptPc.unpushed : DecryptPc → List Packet
  | .received message => [message].filter isTunnelPacket
  | .push packet => [packet]
  | _ => []

/-- What the decrypt worker has got hold of, and what it has done with it. -/
structure DecryptTakes (d d' : Decrypt) (evs : List Event) : Prop where
  datagrams : d.pending.toList ++ delivered (queueLog .encryptedRx evs) =
    injections evs ++ d'.pending.toList
  packets : d.pc.unpushed ++ tunnelPackets evs =
    pushed (queueLog .tunWrite evs) ++ d'.pc.unpushed
  held : ∀ datagram, d'.pc = .inject datagram → d'.pending = some datagram

theorem DecryptTakes.idle {d d' : Decrypt} {pc : DecryptPc} (hpc : d.pc = pc)
    (hun : pc.unpushed = []) (hpending : d'.pending = d.pending) (hun' : d'.pc.unpushed = [])
    (hnot : ∀ datagram, d'.pc ≠ .inject datagram) : DecryptTakes d d' [] where
  datagrams := by rw [hpending]; exact List.append_nil _
  packets := by rw [hpc, hun, hun']; rfl
  held datagram h := absurd h (hnot datagram)

theorem popped_takes {d : Decrypt} {observed : SendPath.Reading} {sh'' : Shared}
    {evs : List (QueueRun.Event Packet)} {closed : Bool} (hpc : d.pc = .next observed)
    (hpending : d.pending = none) (hcall : sh.call .encryptedRx .tryPop = some (sh'', evs)) :
    DecryptTakes d (d.popped observed closed evs) (evs.map (.queue .encryptedRx)) := by
  obtain ⟨-, ⟨-, rfl⟩ | ⟨datagram, -, -, -, rfl⟩⟩ := QueueRun.step_take (.inl rfl) (call_self hcall)
  · cases closed <;> exact .idle hpc rfl rfl rfl (by simp [Decrypt.popped])
  · refine ⟨?_, ?_, fun datagram' h => ?_⟩
    · rw [hpending]
      rfl
    · rw [hpc]
      rfl
    · obtain rfl := DecryptPc.inject.inj h
      rfl

theorem decryptStep_takes {d d' : Decrypt} {call : DecryptCall}
    (hheld : ∀ datagram, d.pc = .inject datagram → d.pending = some datagram) :
    decryptStep sh d call = some (sh', d', evs) → DecryptTakes d d' evs := by
  fun_cases decryptStep sh d call
  all_goals rintro ⟨⟩
  case case1 hpc => cases sh.continues <;> exact .idle hpc rfl rfl rfl (by simp)
  case case2 hpc =>
      cases hdrain : d.drain <;> exact .idle hpc rfl rfl rfl (by simp)
  case case3 message hpc =>
      refine ⟨List.append_nil _, ?_, ?_⟩
      · rw [hpc]
        cases hmessage : isTunnelPacket message <;>
          simp [DecryptPc.unpushed, tunnelPackets, queueLog, pushed, hmessage]
      · cases isTunnelPacket message <;> simp
  case case5 hpc _ hcall =>
      obtain ⟨hpushed, hdelivered, -⟩ := call_push hcall
      refine ⟨?_, ?_, ?_⟩
      · rw [queueLog_map_of_ne (by simp), injections, filterMap_map_nil fun _ => rfl]
        exact List.append_nil _
      · rw [hpc, queueLog_map, hpushed, tunnelPackets, filterMap_map_nil fun _ => rfl]
        split <;> rfl
      · split <;> simp
  case case6 hpc => exact .idle hpc rfl rfl rfl (by simp)
  case case7 hpc datagram hpending =>
      refine ⟨List.append_nil _, by rw [hpc]; rfl, fun datagram' h => ?_⟩
      obtain rfl := DecryptPc.inject.inj h
      exact hpending
  case case9 hpc hpending _ hcall => exact popped_takes hpc hpending hcall
  case case10 hpc _ _ | case12 hpc _ _ => exact .idle hpc rfl rfl rfl (by simp)
  case case14 hpc => exact .idle hpc rfl rfl rfl (by simp)
  case case15 hpc =>
      exact ⟨List.append_nil _, by rw [hpc]; rfl, fun _ h => by cases h⟩
  case case19 hpc | case21 hpc | case22 hpc => exact .idle hpc rfl rfl rfl (by simp)
  case case20 hpc _ _ =>
      exact ⟨List.append_nil _, by rw [hpc]; rfl, fun _ h => by cases h⟩
  case case23 hpc _ | case27 hpc _ => exact .idle hpc rfl rfl rfl (by simp)
  case case25 datagram hpc =>
      refine ⟨?_, by rw [hpc]; rfl, fun _ h => by cases h⟩
      rw [hheld datagram hpc]
      rfl
  case case26 hpc => exact .idle hpc rfl rfl rfl (by simp)

/-- What `udp_read` hands in, and what it counts. -/
theorem udpReadStep_takes {pc pc' : UdpReadPc} {call : UdpReadCall} :
    udpReadStep sh pc call = some (sh', pc', evs) →
    arrivals evs = pushed (queueLog .encryptedRx evs) ∧
      sh'.encryptedDrops = sh.encryptedDrops + (returned (queueLog .encryptedRx evs)).length := by
  fun_cases udpReadStep sh pc call
  all_goals rintro ⟨⟩
  case case9 datagram _ evs hcall =>
      obtain ⟨hpushed, -, hdropped⟩ := call_push hcall
      rw [queueLog_mark (fun _ => rfl), hpushed, hdropped]
      obtain ⟨queue, -, rfl⟩ := call_some hcall
      exact ⟨congrArg (datagram :: ·) (filterMap_map_nil (fun _ => rfl) evs), rfl⟩
  case case14 hcall =>
      obtain ⟨-, rfl⟩ := Prod.mk.inj (Option.some.inj (call_self hcall))
      obtain ⟨queue, -, rfl⟩ := call_some hcall
      rw [queueLog_map, QueueRun.pushed_map_discarded, QueueRun.returned_map_discarded]
      exact ⟨filterMap_map_nil (fun _ => rfl) _, rfl⟩
  all_goals exact ⟨rfl, rfl⟩

/-- What `tun_write` writes is what it takes out of its queue. -/
theorem tunWriteStep_takes {pc pc' : TunWritePc} {call : TunWriteCall} :
    tunWriteStep sh pc call = some (sh', pc', evs) →
    tunPackets evs = delivered (queueLog .tunWrite evs) := by
  fun_cases tunWriteStep sh pc call
  all_goals rintro ⟨⟩
  case case3 hcall =>
      obtain ⟨-, rfl, -⟩ := QueueRun.step_reserve (.inl rfl) (call_self hcall)
      rfl
  case case7 packet hfront _ hcall =>
      obtain ⟨-, -, x, hx, rfl⟩ := call_commit hcall
      obtain rfl := Option.some.inj (hx.symm.trans hfront)
      rfl
  case case12 hcall | case16 hcall =>
      rw [queueLog_map, (call_restore hcall).1]
      exact filterMap_map_nil (fun _ => rfl) _
  all_goals rfl

/-- What the queues say about the way from the server. -/
structure Inbound (log : List Event) (s : State) : Prop where
  arrived : arrivals log = pushed (queueLog .encryptedRx log)
  dropped : s.shared.encryptedDrops = (returned (queueLog .encryptedRx log)).length
  taken : delivered (queueLog .encryptedRx log) = injections log ++ s.decrypt.pending.toList
  held : ∀ datagram, s.decrypt.pc = .inject datagram → s.decrypt.pending = some datagram
  decrypted : tunnelPackets log = pushed (queueLog .tunWrite log) ++ s.decrypt.pc.unpushed
  written : tunPackets log = delivered (queueLog .tunWrite log)

theorem start_inbound (running : Bool) (now : Instant) : Inbound [] (State.start running now) :=
  ⟨rfl, rfl, rfl, fun _ h => (by cases h), rfl, rfl⟩

theorem injections_append (log log' : List Event) :
    injections (log ++ log') = injections log ++ injections log' :=
  List.filterMap_append

theorem tunnelPackets_append (log log' : List Event) :
    tunnelPackets (log ++ log') = tunnelPackets log ++ tunnelPackets log' := by
  rw [tunnelPackets, List.filterMap_append, List.filter_append]
  rfl

variable {interval : Duration} {a : Act}

theorem step_arrivals (h : step interval s a = some (s', evs)) :
    arrivals evs = pushed (queueLog .encryptedRx evs) ∧
      s'.shared.encryptedDrops =
        s.shared.encryptedDrops + (returned (queueLog .encryptedRx evs)).length := by
  by_cases hrole : a.role = .worker .udpRead
  · obtain ⟨call, rfl⟩ := Act.udpRead_of_role hrole
    exact udpReadStep_takes (step_udpRead h)
  · have hcarries := step_carries h
    rw [pushed_nil .encryptedRx hcarries.by_role hrole,
      returned_nil .encryptedRx hcarries.by_role hrole]
    exact ⟨filterMap_nil hcarries.by_role fun event hby => by
      cases event <;> first | rfl | exact absurd hby hrole, hcarries.encryptedDrops hrole⟩

theorem step_takes (h : step interval s a = some (s', evs))
    (hheld : ∀ datagram, s.decrypt.pc = .inject datagram → s.decrypt.pending = some datagram) :
    DecryptTakes s.decrypt s'.decrypt evs := by
  by_cases hrole : a.role = .worker .decrypt
  · obtain ⟨call, rfl⟩ := Act.decrypt_of_role hrole
    exact decryptStep_takes hheld (step_decrypt h)
  · have hby := (step_carries h).by_role
    rw [(step_untouched h).decrypt hrole]
    refine ⟨?_, ?_, hheld⟩
    · rw [delivered_nil .encryptedRx hby hrole, injections, filterMap_nil hby fun event hby => ?_]
      · exact List.append_nil _
      · cases event <;> first | rfl | exact absurd hby hrole
    · rw [pushed_nil .tunWrite hby hrole, tunnelPackets, filterMap_nil hby fun event hby => ?_]
      · exact List.append_nil _
      · cases event <;> first | rfl | exact absurd hby hrole

theorem step_tunPackets (h : step interval s a = some (s', evs)) :
    tunPackets evs = delivered (queueLog .tunWrite evs) := by
  by_cases hrole : a.role = .worker .tunWrite
  · obtain ⟨call, rfl⟩ := Act.tunWrite_of_role hrole
    exact tunWriteStep_takes (step_tunWrite h)
  · have hby := (step_carries h).by_role
    rw [delivered_nil .tunWrite hby hrole]
    exact filterMap_nil hby fun event hby => by
      cases event <;> first | rfl | exact absurd hby hrole

theorem step_inbound (h : step interval s a = some (s', evs)) (hs : Inbound log s) :
    Inbound (log ++ evs) s' := by
  obtain ⟨harrivals, hdrops⟩ := step_arrivals h
  have htakes := step_takes h hs.held
  constructor
  · rw [arrivals, List.filterMap_append, queueLog_append, QueueRun.pushed_append, ← hs.arrived,
      ← harrivals]
    rfl
  · rw [hdrops, hs.dropped, queueLog_append, QueueRun.returned_append, List.length_append]
  · rw [queueLog_append, QueueRun.delivered_append, hs.taken, List.append_assoc, htakes.datagrams,
      ← List.append_assoc, injections_append]
  · exact htakes.held
  · rw [tunnelPackets_append, queueLog_append, QueueRun.pushed_append, hs.decrypted,
      List.append_assoc, htakes.packets, List.append_assoc]
  · rw [tunPackets, List.filterMap_append, queueLog_append, QueueRun.delivered_append,
      ← hs.written, ← step_tunPackets h]
    rfl

end Inbound

/-! ## To the server -/

section Outbound

variable {role : Role} {sh sh' : Shared} {s s' : State} {evs log : List Event}

/-- Nobody but its consumer touches the reservation of a queue. -/
theorem front_stays (name : QueueName) (h : Carries role sh sh' evs) (hne : role ≠ name.consumer) :
    sh'.front name = sh.front name := by
  rcases h.queue name with ⟨hq, -⟩ | ⟨a, hallowed, hstep⟩
  · rw [Shared.front, hq, Shared.front]
  · cases a with
    | push x =>
        rcases Queue.push_cases (sh.queues name).queue ((sh.queues name).pushes, x) with
          ⟨-, hp⟩ | ⟨old, rest, queue, -, -, -, hp, -⟩ | ⟨queue, -, -, hp, -⟩ <;>
          simp only [QueueRun.step, hp, Option.some.injEq, Prod.mk.injEq] at hstep <;>
          obtain ⟨hq, -⟩ := hstep <;> rw [Shared.front, ← hq, Shared.front]
    | close =>
        obtain ⟨hq, -⟩ := Prod.mk.inj (Option.some.inj hstep)
        rw [Shared.front, ← hq, Shared.front]
    | tryPop | peek | commit | restore => exact absurd hallowed.2 hne
    | notifyChange | pop | popTimeout | tryPeek => exact hallowed.elim

/-- What `tun_read` hands in. -/
theorem tunReadStep_offers {pc pc' : TunReadPc} {call : TunReadCall} :
    tunReadStep sh pc call = some (sh', pc', evs) → offers evs = pushed (queueLog .rawTx evs) := by
  fun_cases tunReadStep sh pc call
  all_goals rintro ⟨⟩
  case case11 packet _ evs hcall =>
      rw [queueLog_mark (fun _ => rfl), (call_push hcall).1]
      exact congrArg (packet :: ·) (filterMap_map_nil (fun _ => rfl) evs)
  case case15 hcall =>
      obtain ⟨-, rfl⟩ := Prod.mk.inj (Option.some.inj (call_self hcall))
      rw [queueLog_map, QueueRun.pushed_map_discarded]
      exact filterMap_map_nil (fun _ => rfl) _
  all_goals rfl

theorem cleanupStep_offers {ended : Thread → Bool} {op : Cleanup} :
    cleanupStep ended sh op = some (sh', evs) → offers evs = pushed (queueLog .rawTx evs) := by
  fun_cases cleanupStep ended sh op
  all_goals rintro ⟨⟩
  case case3 name evs hcall =>
      obtain ⟨-, rfl⟩ := Prod.mk.inj (Option.some.inj (call_self hcall))
      rw [offers, filterMap_map_nil fun _ => rfl]
      by_cases hname : name = .rawTx
      · subst hname
        rw [queueLog_map, QueueRun.pushed_map_discarded]
      · rw [queueLog_map_of_ne hname]
        rfl
  all_goals rfl

/-- What the main thread hands in. -/
theorem mainStep_offers {interval : Duration} {ended : Thread → Bool} {m m' : Main} :
    mainStep interval ended sh m = some (sh', m', evs) →
    offers evs = pushed (queueLog .rawTx evs) := by
  fun_cases mainStep interval ended sh m
  all_goals rintro ⟨⟩
  case case8 evs hcall =>
      rw [queueLog_mark (fun _ => rfl), (call_push hcall).1]
      exact congrArg (KEEPALIVE_PACKET :: ·) (filterMap_map_nil (fun _ => rfl) evs)
  case case17 hstep => exact cleanupStep_offers hstep
  all_goals rfl

/-- The packet that the encrypt worker is done with, before it takes it out. -/
def EncryptPc.done (pc : EncryptPc) (front : Option (Nat × Packet)) : List (Nat × Packet) :=
  match pc with
  | .commit => front.toList
  | _ => []

/-- A step that neither encrypts nor takes anything out. -/
theorem sublist_idle {written taken rest : List (Nat × Packet)}
    (h : written.Sublist (taken ++ [])) (hencryptions : encryptions evs = [])
    (hdelivered : delivered (queueLog .rawTx evs) = []) :
    (written ++ encryptions evs).Sublist
      (taken ++ delivered (queueLog .rawTx evs) ++ rest) := by
  rw [hencryptions, hdelivered, List.append_nil, List.append_nil]
  rw [List.append_nil] at h
  exact h.trans (List.sublist_append_left _ _)

/-- What wolfSSL has encrypted is then taken out of the queue. -/
theorem encryptStep_takes {pc pc' : EncryptPc} {call : EncryptCall}
    {written taken : List (Nat × Packet)}
    (h : written.Sublist (taken ++ pc.done (sh.front .rawTx))) :
    encryptStep sh pc call = some (sh', pc', evs) →
    (written ++ encryptions evs).Sublist
      (taken ++ delivered (queueLog .rawTx evs) ++ pc'.done (sh'.front .rawTx)) := by
  fun_cases encryptStep sh pc call
  all_goals rintro ⟨⟩
  case case3 hcall =>
      obtain ⟨-, rfl, -⟩ := QueueRun.step_reserve (.inl rfl) (call_self hcall)
      exact sublist_idle h rfl rfl
  case case7 packet hfront =>
      have hdone : EncryptPc.commit.done (sh.front .rawTx) = [packet] := by rw [hfront]; rfl
      rw [hdone]
      have h : written.Sublist (taken ++ []) := h
      rw [List.append_nil] at h
      show (written ++ [packet]).Sublist (taken ++ [] ++ [packet])
      rw [List.append_nil]
      exact h.append_right [packet]
  case case13 hcall | case21 hcall =>
      refine sublist_idle h (filterMap_map_nil (fun _ => rfl) _) ?_
      rw [queueLog_map, (call_restore hcall).1]
  case case17 =>
      refine sublist_idle h (filterMap_map_nil (fun _ => rfl) _) ?_
      rw [queueLog_map_of_ne (by simp)]
      rfl
  case case19 hcall =>
      obtain ⟨hfront, -, -⟩ := call_commit hcall
      have hdone : EncryptPc.commit.done (sh.front .rawTx) = _ := hfront
      rw [hdone] at h
      rw [queueLog_map, encryptions, filterMap_map_nil fun _ => rfl, List.append_nil]
      exact h.trans (List.sublist_append_left _ _)
  all_goals exact sublist_idle h rfl rfl

/-- What `udp_write` has looked at is young enough. -/
def UdpWritePc.Young (pc : UdpWritePc) (front : Option (Nat × EncryptedDatagram)) : Prop :=
  ∀ looked, pc = .send looked →
    ∃ datagram, front = some datagram ∧ looked < datagram.2.enqueuedAt + DATAGRAM_TTL

/-- What is sent is taken out of the queue, and young enough. -/
structure Sends (evs : List Event) (pc' : UdpWritePc) (front' : Option (Nat × EncryptedDatagram)) :
    Prop where
  taken : ((departures evs).map Prod.fst).Sublist (delivered (queueLog .encTx evs))
  aged : ∀ x ∈ departures evs, x.2 < x.1.2.enqueuedAt + DATAGRAM_TTL
  young : pc'.Young front'

theorem Sends.idle {pc' : UdpWritePc} {front' : Option (Nat × EncryptedDatagram)}
    (hdepartures : departures evs = []) (hnot : ∀ looked, pc' ≠ .send looked) :
    Sends evs pc' front' where
  taken := by rw [hdepartures]; exact List.nil_sublist _
  aged x hx := by rw [hdepartures] at hx; exact absurd hx List.not_mem_nil
  young looked h := absurd h (hnot looked)

theorem lt_of_age {now enqueuedAt : Instant} :
    now - enqueuedAt < DATAGRAM_TTL → now < enqueuedAt + DATAGRAM_TTL := by
  intro h
  exact Nat.lt_of_not_le fun hle => Nat.not_lt.mpr (Nat.le_sub_of_add_le' hle) h

theorem udpWriteStep_sends {pc pc' : UdpWritePc} {call : UdpWriteCall}
    (h : pc.Young (sh.front .encTx)) :
    udpWriteStep sh pc call = some (sh', pc', evs) → Sends evs pc' (sh'.front .encTx) := by
  fun_cases udpWriteStep sh pc call
  all_goals rintro ⟨⟩
  case case1 => cases sh.continues <;> exact .idle rfl (by simp)
  case case3 => exact .idle (filterMap_map_nil (fun _ => rfl) _) (by split <;> simp)
  case case4 => cases sh.continues <;> exact .idle rfl (by simp)
  case case7 | case17 | case21 => exact .idle (filterMap_map_nil (fun _ => rfl) _) (by simp)
  case case8 datagram hfront hyoung =>
      refine ⟨List.nil_sublist _, fun x hx => absurd hx List.not_mem_nil, fun looked hlooked => ?_⟩
      obtain rfl := UdpWritePc.send.inj hlooked
      refine ⟨datagram, hfront, ?_⟩
      exact lt_of_age (Nat.lt_of_not_le hyoung)
  case case11 looked datagram hfront evs hcall =>
      obtain ⟨x, hx, hyoung⟩ := h looked rfl
      obtain rfl := Option.some.inj (hx.symm.trans hfront)
      obtain ⟨-, -, y, hy, rfl⟩ := call_commit hcall
      obtain rfl := Option.some.inj (hy.symm.trans hfront)
      refine ⟨List.Sublist.refl _, fun z hz => ?_, fun _ h => by cases h⟩
      rw [List.mem_singleton.mp hz]
      exact hyoung
  all_goals exact .idle rfl (by simp)

/-- What the queues say about the way to the server. -/
structure Outbound (log : List Event) (s : State) : Prop where
  offered : offers log = pushed (queueLog .rawTx log)
  encrypted : (encryptions log).Sublist
    (delivered (queueLog .rawTx log) ++ s.encrypt.done (s.shared.front .rawTx))
  departed : ((departures log).map Prod.fst).Sublist (delivered (queueLog .encTx log))
  aged : ∀ x ∈ departures log, x.2 < x.1.2.enqueuedAt + DATAGRAM_TTL
  young : s.udpWrite.Young (s.shared.front .encTx)

theorem start_outbound (running : Bool) (now : Instant) : Outbound [] (State.start running now) :=
  ⟨rfl, List.nil_sublist _, List.nil_sublist _, fun _ hx => absurd hx List.not_mem_nil,
    fun _ h => by cases h⟩

variable {interval : Duration} {a : Act}

theorem step_offers (h : step interval s a = some (s', evs)) :
    offers evs = pushed (queueLog .rawTx evs) := by
  by_cases htunRead : a.role = .worker .tunRead
  · obtain ⟨call, rfl⟩ := Act.tunRead_of_role htunRead
    exact tunReadStep_offers (step_tunRead h)
  · by_cases hmain : a.role = .main
    · obtain rfl := Act.main_of_role hmain
      exact mainStep_offers (step_main h)
    · have hby := (step_carries h).by_role
      have hnot : ¬ QueueName.rawTx.FedBy a.role := not_or.mpr ⟨htunRead, hmain⟩
      rw [pushed_nil .rawTx hby hnot]
      exact filterMap_nil hby fun event hby => by
        cases event <;> first | rfl | exact absurd hby hnot

theorem step_encryptions {written taken : List (Nat × Packet)}
    (h : step interval s a = some (s', evs))
    (hs : written.Sublist (taken ++ s.encrypt.done (s.shared.front .rawTx))) :
    (written ++ encryptions evs).Sublist
      (taken ++ delivered (queueLog .rawTx evs) ++ s'.encrypt.done (s'.shared.front .rawTx)) := by
  by_cases hrole : a.role = .worker .encrypt
  · obtain ⟨call, rfl⟩ := Act.encrypt_of_role hrole
    exact encryptStep_takes hs (step_encrypt h)
  · have hcarries := step_carries h
    have hnone : encryptions evs = [] := filterMap_nil hcarries.by_role fun event hby => by
      cases event <;> first | rfl | exact absurd hby hrole
    rw [(step_untouched h).encrypt hrole, front_stays .rawTx hcarries hrole,
      delivered_nil .rawTx hcarries.by_role hrole, hnone, List.append_nil, List.append_nil]
    exact hs

theorem step_sends (h : step interval s a = some (s', evs))
    (hs : s.udpWrite.Young (s.shared.front .encTx)) :
    Sends evs s'.udpWrite (s'.shared.front .encTx) := by
  by_cases hrole : a.role = .worker .udpWrite
  · obtain ⟨call, rfl⟩ := Act.udpWrite_of_role hrole
    exact udpWriteStep_sends hs (step_udpWrite h)
  · have hcarries := step_carries h
    have hnone : departures evs = [] := filterMap_nil hcarries.by_role fun event hby => by
      cases event <;> first | rfl | exact absurd hby hrole
    refine ⟨?_, ?_, ?_⟩
    · rw [hnone]
      exact List.nil_sublist _
    · rw [hnone]
      exact fun x hx => absurd hx List.not_mem_nil
    · rw [(step_untouched h).udpWrite hrole, front_stays .encTx hcarries hrole]
      exact hs

theorem step_outbound (h : step interval s a = some (s', evs)) (hs : Outbound log s) :
    Outbound (log ++ evs) s' := by
  have hsends := step_sends h hs.young
  have hdepartures : departures (log ++ evs) = departures log ++ departures evs :=
    List.filterMap_append
  constructor
  · rw [offers, List.filterMap_append, queueLog_append, QueueRun.pushed_append, ← hs.offered,
      ← step_offers h]
    rfl
  · rw [encryptions, List.filterMap_append, queueLog_append, QueueRun.delivered_append]
    exact step_encryptions h hs.encrypted
  · rw [hdepartures, List.map_append, queueLog_append, QueueRun.delivered_append]
    exact hs.departed.append hsends.taken
  · intro x hx
    rw [hdepartures] at hx
    exact (List.mem_append.mp hx).elim (hs.aged x) (hsends.aged x)
  · exact hsends.young

end Outbound

/-! ## Runs -/

section Runs

variable {configured : Duration} {running : Bool} {now : Instant} {G : State → Act → Prop}
  {as : List Act} {log : List Event} {s : State}

theorem run_inbound (h : (machine configured running now).Run G as log s) : Inbound log s :=
  h.invariant Inbound (start_inbound running now) fun hs _ hstep => step_inbound hstep hs

theorem run_outbound (h : (machine configured running now).Run G as log s) : Outbound log s :=
  h.invariant Outbound (start_outbound running now) fun hs _ hstep => step_outbound hstep hs

theorem run_taken (name : QueueName) (h : (machine configured running now).Run G as log s) :
    Stamped (pushed (queueLog name log)) (delivered (queueLog name log)) := by
  obtain ⟨calls, hrun⟩ := run_queue name h
  exact (QueueRun.run_delivered rfl hrun).sublist (List.sublist_append_left _ _)

/-- While `encrypted_rx` is open, its items are those handed in that were neither
taken nor pushed out. -/
def Counted (log : List Event) (s : State) : Prop :=
  (s.shared.queues .encryptedRx).queue.closed = false →
    (pushed (queueLog .encryptedRx log)).length =
      (delivered (queueLog .encryptedRx log)).length +
        (returned (queueLog .encryptedRx log)).length +
        (s.shared.queues .encryptedRx).queue.items.length

theorem queueStep_counted {role : Role} {q q' : QueueRun.Shared Packet}
    {evs : List (QueueRun.Event Packet)} :
    QueueStep role .encryptedRx q q' evs → q'.queue.closed = false →
    q.queue.closed = false ∧ q.queue.items.length + (pushed evs).length =
      (delivered evs).length + (returned evs).length + q'.queue.items.length := by
  rintro (⟨rfl, rfl⟩ | ⟨a, hallowed, hstep⟩) hopen
  · exact ⟨hopen, by simp [pushed, delivered, returned]⟩
  · refine QueueRun.step_counted ?_ hstep hopen
    cases a with
    | push | tryPop | close => trivial
    | peek | commit | restore => exact absurd rfl hallowed.1
    | notifyChange | pop | popTimeout | tryPeek => exact hallowed.elim

theorem run_counted (h : (machine configured running now).Run G as log s) : Counted log s := by
  refine h.invariant Counted (fun _ => rfl) ?_
  intro log s a s' evs hs _ hstep hopen
  obtain ⟨hopen', hlength⟩ := queueStep_counted ((step_carries hstep).queue .encryptedRx) hopen
  have hbefore := hs hopen'
  rw [queueLog_append, QueueRun.pushed_append, QueueRun.delivered_append,
    QueueRun.returned_append, List.length_append, List.length_append, List.length_append]
  omega

theorem queue_bounded (name : QueueName) (h : (machine configured running now).Run G as log s) :
    (s.shared.queues name).queue.items.length ≤ QUEUE_CAPACITY := by
  obtain ⟨calls, hrun⟩ := run_queue name h
  have hcapacity : (s.shared.queues name).queue.capacity = QUEUE_CAPACITY :=
    hrun.invariant (fun _ q => q.queue.capacity = QUEUE_CAPACITY) rfl
      fun hq _ hstep => (QueueRun.step_frame hstep).1.trans hq
  rw [← hcapacity]
  exact (s.shared.queues name).queue.bounded

/-- The datagrams of the server reach wolfSSL in order and at most once, and while
`encrypted_rx` is open none is missing but those waiting and those counted as
dropped.  What wolfSSL makes of them, keepalives apart, reaches the TUN device in
order and at most once. -/
theorem inbound_carried (h : (machine configured running now).Run G as log s) :
    Stamped (arrivals log) (injections log) ∧
      ((s.shared.queues .encryptedRx).queue.closed = false →
        (arrivals log).length = (injections log).length + s.decrypt.pending.toList.length +
          (s.shared.queues .encryptedRx).queue.items.length + s.shared.encryptedDrops) ∧
      Stamped (tunnelPackets log) (tunPackets log) := by
  have hs := run_inbound h
  refine ⟨?_, fun hopen => ?_, ?_⟩
  · rw [hs.arrived]
    refine (run_taken .encryptedRx h).sublist ?_
    rw [hs.taken]
    exact List.sublist_append_left _ _
  · have hcounted := run_counted h hopen
    rw [← hs.arrived, ← hs.dropped, hs.taken, List.length_append] at hcounted
    omega
  · rw [hs.decrypted, hs.written]
    exact (run_taken .tunWrite h).grow _

theorem call_push_open {sh : Shared} {name : QueueName} (x : name.Item)
    (hopen : (sh.queues name).queue.closed = false) :
    ∃ sh' evs, sh.call name (.push x) = some (sh', evs) ∧ pushAnswer evs ≠ .refused ∧
      (sh'.queues name).queue.closed = false := by
  rcases Queue.push_cases (sh.queues name).queue ((sh.queues name).pushes, x) with
    ⟨hclosed, -⟩ | ⟨old, rest, queue, -, -, -, hp, -, hstays, -⟩ | ⟨queue, -, -, hp, -, hstays, -⟩
  · exact absurd (hopen.symm.trans hclosed) (by decide)
  all_goals
    refine ⟨_, _, by simp only [Shared.call, QueueRun.step, hp]; rfl, by simp [pushAnswer], ?_⟩
    simpa using hstays

/-- `udp_read` receives a datagram and goes back to its `recv`. -/
def receive (datagram : Packet) : List Act :=
  [.udpRead (.recv (.ok datagram)), .udpRead .go, .udpRead .go]

theorem run_receive (datagram : Packet)
    (h : (machine configured running now).Run Machine.Free as log s) (hpc : s.udpRead = .recv)
    (hopen : (s.shared.queues .encryptedRx).queue.closed = false) :
    ∃ evs s', (machine configured running now).Run Machine.Free (as ++ receive datagram)
        (log ++ evs) s' ∧
      s'.udpRead = .recv ∧ (s'.shared.queues .encryptedRx).queue.closed = false ∧
      arrivals evs = [datagram] ∧ injections evs = [] ∧ tunPackets evs = [] := by
  obtain ⟨sh, evs, hpush, hstored, hstays⟩ := @call_push_open s.shared .encryptedRx datagram hopen
  have hreceived : (machine configured running now).step s (.udpRead (.recv (.ok datagram))) =
      some ({ s with udpRead := .push datagram }, []) := by
    simp only [machine, step, hpc]
    rfl
  have hpushed : (machine configured running now).step { s with udpRead := .push datagram }
      (.udpRead .go) = some ({ s with
        shared := { sh with encryptedDrops := sh.encryptedDrops + (pushAnswer evs).dropped }
        udpRead := .notify }, .arrived datagram :: evs.map (.queue .encryptedRx)) := by
    simp only [machine, step, udpReadStep, hpush, if_neg hstored]
    rfl
  have hrun := ((h.next trivial hreceived).next trivial hpushed).next (a := .udpRead .go)
    trivial rfl
  have hevs : ∀ {β : Type} (f : Event → Option β), (∀ event, f (.queue .encryptedRx event) = none) →
      (evs.map (.queue .encryptedRx)).filterMap f = [] := by
    intro β f hf
    rw [List.filterMap_map, List.filterMap_eq_nil_iff]
    exact fun event _ => hf event
  refine ⟨_, _, by simpa [receive] using hrun, rfl, hstays, ?_, ?_, ?_⟩
  · exact congrArg (datagram :: ·) (hevs Event.arrival fun _ => rfl)
  · exact hevs Event.injection fun _ => rfl
  · exact hevs Event.tunPacket fun _ => rfl

/-- However many datagrams come in a row, `udp_read` takes them all. -/
theorem run_receives (datagrams : List Packet)
    (h : (machine configured running now).Run Machine.Free as log s) (hpc : s.udpRead = .recv)
    (hopen : (s.shared.queues .encryptedRx).queue.closed = false) :
    ∃ evs s', (machine configured running now).Run Machine.Free
        (as ++ datagrams.flatMap receive) (log ++ evs) s' ∧
      (s'.shared.queues .encryptedRx).queue.closed = false ∧
      arrivals evs = datagrams ∧ injections evs = [] ∧ tunPackets evs = [] := by
  induction datagrams generalizing as log s with
  | nil => exact ⟨[], s, by simpa using h, hopen, rfl, rfl, rfl⟩
  | cons datagram datagrams ih =>
      obtain ⟨evs, s₁, hrun₁, hpc₁, hopen₁, harrived, hinjected, hwritten⟩ :=
        run_receive datagram h hpc hopen
      obtain ⟨evs', s₂, hrun₂, hopen₂, harrived', hinjected', hwritten'⟩ := ih hrun₁ hpc₁ hopen₁
      refine ⟨evs ++ evs', s₂, by simpa using hrun₂, hopen₂, ?_, ?_, ?_⟩
      · rw [arrivals, List.filterMap_append, ← arrivals, ← arrivals, harrived, harrived']
        rfl
      · rw [injections, List.filterMap_append, ← injections, ← injections, hinjected, hinjected']
        rfl
      · rw [tunPackets, List.filterMap_append, ← tunPackets, ← tunPackets, hwritten, hwritten']
        rfl

/-- An empty packet from the server to the client. -/
def samplePacket : Packet := [0x45, 0, 0, 20, 0, 0, 0, 0, 64, 1, 0, 0, 10, 8, 1, 1, 10, 8, 1, 2]

/-- The next datagram is decrypted, and its packet written. -/
def carry (packet : Packet) : List Act :=
  [.decrypt .go, .decrypt (.inject (.ok true)), .decrypt .go, .decrypt .go,
    .decrypt (.read (.ok (.complete packet))), .decrypt .go, .decrypt .go, .decrypt .go,
    .decrypt .go, .decrypt (.read (.ok .wantRead)), .decrypt .go, .tunWrite .go, .tunWrite .go,
    .tunWrite .go, .tunWrite (.write (.ok packet.length))]

def samplePacket' : Packet := samplePacket.dropLast ++ [3]

/-- Two datagrams arrive; they are decrypted and their packets written. -/
def inboundActs : List Act :=
  [.udpRead .go, .udpRead (.poll .ready), .decrypt .go, .decrypt .go] ++ receive [1] ++
    receive [2] ++ carry samplePacket ++ carry samplePacket'

def inboundSample : State × List Event :=
  (machine (Duration.fromSecs 25) true 0).outcome (fun _ _ => true) inboundActs

/-- Afterwards more datagrams arrive than their queue can hold. -/
theorem inbound_carried_sample :
    ∃ as log s, (machine (Duration.fromSecs 25) true 0).Run Machine.Free as log s ∧
      injections log = [(0, [1]), (1, [2])] ∧
      tunPackets log = [(0, samplePacket), (1, samplePacket')] ∧
      0 < s.shared.encryptedDrops ∧ Stamped (arrivals log) (injections log) ∧
      Stamped (tunnelPackets log) (tunPackets log) := by
  have hrun : (machine (Duration.fromSecs 25) true 0).Run Machine.Free inboundActs
      inboundSample.2 inboundSample.1 :=
    Machine.run_outcome (fun _ _ _ => trivial) (by decide +kernel)
  have hpc : inboundSample.1.udpRead = .recv := rfl
  have hopen : (inboundSample.1.shared.queues .encryptedRx).queue.closed = false := rfl
  have harrivals : arrivals inboundSample.2 = [[1], [2]] := by decide +kernel
  have hinjections : injections inboundSample.2 = [(0, [1]), (1, [2])] := by decide +kernel
  have htunPackets : tunPackets inboundSample.2 = [(0, samplePacket), (1, samplePacket')] := by
    decide +kernel
  obtain ⟨evs, s, hrun', hopen', harrived, hinjected, hwritten⟩ :=
    run_receives (List.replicate (QUEUE_CAPACITY + 2) [3]) hrun hpc hopen
  obtain ⟨hordered, hcounted, hdelivered⟩ := inbound_carried hrun'
  have hinjections' : injections (inboundSample.2 ++ evs) = [(0, [1]), (1, [2])] := by
    rw [injections, List.filterMap_append, ← injections, ← injections, hinjections, hinjected]
    rfl
  refine ⟨_, _, s, hrun', hinjections', ?_, ?_, hordered, hdelivered⟩
  · rw [tunPackets, List.filterMap_append, ← tunPackets, ← tunPackets, htunPackets, hwritten]
    rfl
  · have harrivals' : (arrivals (inboundSample.2 ++ evs)).length = QUEUE_CAPACITY + 4 := by
      rw [arrivals, List.filterMap_append, ← arrivals, ← arrivals, harrivals, harrived,
        List.length_append, List.length_replicate]
      rfl
    have hpending : s.decrypt.pending.toList.length ≤ 1 := by cases s.decrypt.pending <;> simp
    have hroom := queue_bounded .encryptedRx hrun'
    have hcounted := hcounted hopen'
    rw [harrivals', hinjections', List.length_cons, List.length_singleton] at hcounted
    omega

/-- The packets of the TUN device and the keepalives are encrypted in order and
at most once; the datagrams that wolfSSL makes of them are sent in order, at most
once, and none that was too old when it was looked at. -/
theorem outbound_carried (h : (machine configured running now).Run G as log s) :
    Stamped (offers log) (encryptions log) ∧
      Stamped (produced log) ((departures log).map Prod.fst) ∧
      ∀ x ∈ departures log, x.2 < x.1.2.enqueuedAt + DATAGRAM_TTL := by
  have hs := run_outbound h
  refine ⟨?_, (run_taken .encTx h).sublist hs.departed, hs.aged⟩
  obtain ⟨calls, hrun⟩ := run_queue .rawTx h
  rw [hs.offered]
  refine (QueueRun.run_delivered rfl hrun).sublist (hs.encrypted.trans ?_)
  refine List.Sublist.append_left ?_ _
  have hdone : (s.encrypt.done (s.shared.front .rawTx)).Sublist (s.shared.front .rawTx).toList := by
    cases s.encrypt <;> first | exact List.Sublist.refl _ | exact List.nil_sublist _
  refine hdone.trans ?_
  rw [Shared.front, Option.toList_map]
  exact List.sublist_append_left _ _

/-- A packet of the TUN device is queued. -/
def offer (packet : Packet) : List Act :=
  [.tunRead .go, .tunRead (.poll .ready), .tunRead (.read (.ok packet)), .tunRead .go]

/-- wolfSSL takes `written` bytes of the next packet, and sends `datagrams`. -/
def encrypt (datagrams : List Packet) (written : Nat) : List Act :=
  [.encrypt .go, .encrypt .go, .encrypt .go, .encrypt .go] ++ datagrams.map .dtlsSend ++
    [.encrypt (.write (.ok (.complete written))), .encrypt .go]

/-- The second of three packets is written in part only, and the datagram of the first one
is too old when the UDP writer looks at it. -/
def outboundActs : List Act :=
  offer [9, 9] ++ offer [8, 8] ++ offer [7, 7] ++ encrypt [[1]] 2 ++ encrypt [] 1 ++
    [.tick (Duration.fromSecs 2)] ++ encrypt [[2], [3]] 2 ++
    [.udpWrite .go, .udpWrite .go, .udpWrite .go, .udpWrite .go, .udpWrite .go] ++
    [.udpWrite .go, .udpWrite .go, .udpWrite .go, .udpWrite .go, .udpWrite (.send (.ok 1)),
      .udpWrite .go] ++
    [.udpWrite .go, .udpWrite .go, .udpWrite .go, .udpWrite .go, .udpWrite (.send (.ok 1))]

def outboundSample : State × List Event :=
  (machine (Duration.fromSecs 25) true 0).outcome (fun _ _ => true) outboundActs

theorem outbound_carried_sample :
    encryptions outboundSample.2 = [(0, [9, 9]), (2, [7, 7])] ∧
      (departures outboundSample.2).map (fun x => (x.1.1, x.1.2.bytes)) = [(1, [2]), (2, [3])] ∧
      Stamped (offers outboundSample.2) (encryptions outboundSample.2) ∧
      Stamped (produced outboundSample.2) ((departures outboundSample.2).map Prod.fst) ∧
      ∀ x ∈ departures outboundSample.2, x.2 < x.1.2.enqueuedAt + DATAGRAM_TTL := by
  have hrun : (machine (Duration.fromSecs 25) true 0).Run Machine.Free outboundActs
      outboundSample.2 outboundSample.1 :=
    Machine.run_outcome (fun _ _ _ => trivial) (by decide +kernel)
  exact ⟨by decide +kernel, by decide +kernel, outbound_carried hrun⟩

end Runs

end ClientTunnel

end AutobricksVpn
