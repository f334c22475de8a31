/-
# `AutobricksVpn.Tun.Write` — two loops that write packets to the TUN device

`writeTunPacket` is the receive path of the server: one packet, retried in
place, with the error classes written out by hand; `decryptDeliver` is its
caller, which ends the server on any error.  `tunWriterLoop` is the queue-based
writer thread, which asks `classifyTunError`.  Both run over a series of
outcomes of the device; the series ends when the flags `RUNNING` and `active`
are seen false.

The policy they are both meant to follow (`policyDeliver`) looks at one attempt
at a time (`verdict`): written, retry, lost, or fatal.  The writer thread
follows it always (`tunWriterLoop_eq_policy`).  The receive path follows it
up to the first attempt of one of three kinds (`Handled`): a short write, an
error the policy drops the packet for, and a `WouldBlock` whose `poll` fails.
-/
import AutobricksVpn.Base.Queue
import AutobricksVpn.Net.IoError
import AutobricksVpn.Net.Ipv4

namespace AutobricksVpn

/-- What the device and the system answer to one attempt: the outcome of
`Tun::write_packet`, and of `libc::poll` should the caller poll. -/
structure TunAttempt where
  write : Except IoError Nat
  libcPoll : Except IoError Unit

/-- `poll`: an interrupted wait counts as a wait. -/
def poll (outcome : Except IoError Unit) : Except IoError Unit :=
  match outcome with
  | .ok _ => .ok ()
  | .error error => if error.kind = .interrupted then .ok () else .error error

def serverStopping : IoError := IoError.new .interrupted "server stopping"

def partialTunWrite (written expected : Nat) : IoError :=
  IoError.new .writeZero s!"partial TUN write: {written}/{expected}"

/-- `write_tun_packet`, with the attempts it leaves over. -/
def writeTunPacket (packet : Packet) : List TunAttempt → Except IoError Unit × List TunAttempt
  | [] => (.error serverStopping, [])
  | attempt :: rest =>
      match attempt.write with
      | .ok written =>
          if written = packet.length then (.ok (), rest)
          else (.error (partialTunWrite written packet.length), rest)
      | .error error =>
          if error.kind = .interrupted then writeTunPacket packet rest
          else if error.kind = .wouldBlock then
            match poll attempt.libcPoll with
            | .ok _ => writeTunPacket packet rest
            | .error error => (.error error, rest)
          else (.error error, rest)

/-! ## What becomes of a series of packets -/

inductive Life where
  | serving
  | stopping
  | failed (error : IoError)
  deriving DecidableEq

/-- The packets written, the packets given up, the packets not dealt with, and
whether the server goes on, was asked to stop, or failed. -/
structure Delivery where
  written : List Packet
  lost : List Packet
  remaining : List Packet
  life : Life
  deriving DecidableEq

namespace Delivery

def rest (packets : List Packet) (life : Life) : Delivery :=
  { written := [], lost := [], remaining := packets, life := life }

def wrote (packet : Packet) (d : Delivery) : Delivery := { d with written := packet :: d.written }

def gaveUp (packet : Packet) (d : Delivery) : Delivery := { d with lost := packet :: d.lost }

theorem wrote_inj {packet : Packet} {d e : Delivery} (h : d.wrote packet = e.wrote packet) : d = e := by
  cases d
  cases e
  simpa [wrote] using h

theorem gaveUp_inj {packet : Packet} {d e : Delivery} (h : d.gaveUp packet = e.gaveUp packet) :
    d = e := by
  cases d
  cases e
  simpa [gaveUp] using h

end Delivery

/-- The error the worker ends with: its own "server stopping" is no failure. -/
def Life.ofError (error : IoError) : Life :=
  if error = serverStopping then .stopping else .failed error

/-- The drain loop around `write_tun_packet`: an error ends the server. -/
def decryptDeliver : List TunAttempt → List Packet → Delivery
  | [], [] => .rest [] .stopping
  | _ :: _, [] => .rest [] .serving
  | attempts, packet :: packets =>
      match writeTunPacket packet attempts with
      | (.ok _, left) => (decryptDeliver left packets).wrote packet
      | (.error error, _) => .rest (packet :: packets) (Life.ofError error)
termination_by _ packets => packets.length

/-- The loop of `spawn_tun_writer`: reserve the front packet, write it, and
commit or restore the reservation as the error class says. -/
def tunWriterLoop : List TunAttempt → Queue Packet → Delivery
  | [], queue => .rest queue.items .stopping
  | attempt :: attempts, queue =>
      match queue.peek with
      | none => .rest queue.items .serving
      | some (none, _) => .rest queue.items .stopping
      | some (some front, queue) =>
          match attempt.write with
          | .ok written =>
              if written = front.value.length then (tunWriterLoop attempts queue).wrote front.pop
              else (tunWriterLoop attempts queue).gaveUp front.pop
          | .error error =>
              match classifyTunError error with
              | .retry => tunWriterLoop attempts (front.drop queue)
              | .dropPacket => (tunWriterLoop attempts queue).gaveUp front.pop
              | .fatal => .rest (front.drop queue).items (.failed error)

/-! ## The policy -/

/-- What one attempt means for the packet it was made on. -/
inductive Verdict where
  | written
  | retry
  | lost
  | fatal (error : IoError)
  deriving DecidableEq

def verdict (packet : Packet) (attempt : TunAttempt) : Verdict :=
  match attempt.write with
  | .ok written => if written = packet.length then .written else .lost
  | .error error =>
      match classifyTunError error with
      | .retry => .retry
      | .dropPacket => .lost
      | .fatal => .fatal error

def policyDeliver : List TunAttempt → List Packet → Delivery
  | [], packets => .rest packets .stopping
  | _ :: _, [] => .rest [] .serving
  | attempt :: attempts, packet :: packets =>
      match verdict packet attempt with
      | .written => (policyDeliver attempts packets).wrote packet
      | .retry => policyDeliver attempts (packet :: packets)
      | .lost => (policyDeliver attempts packets).gaveUp packet
      | .fatal error => .rest (packet :: packets) (.failed error)

/-- The attempts the policy makes, each with the packet it is made on. -/
def attempted : List TunAttempt → List Packet → List (Packet × TunAttempt)
  | [], _ => []
  | _ :: _, [] => []
  | attempt :: attempts, packet :: packets =>
      (packet, attempt) ::
        match verdict packet attempt with
        | .written | .lost => attempted attempts packets
        | .retry => attempted attempts (packet :: packets)
        | .fatal _ => []

/-- The receive path treats this attempt as the policy does: the write is not
short, the error is not one that only drops the packet, and a `WouldBlock` is
followed by a successful poll. -/
def Handled (packet : Packet) (attempt : TunAttempt) : Prop :=
  (∀ written, attempt.write = .ok written → written = packet.length) ∧
  ∀ error, attempt.write = .error error →
    classifyTunError error ≠ .dropPacket ∧
    (error.kind = .wouldBlock → poll attempt.libcPoll = .ok ())

theorem poll_error_kind {outcome : Except IoError Unit} {error : IoError}
    (h : poll outcome = .error error) : error.kind ≠ .interrupted := by
  unfold poll at h
  split at h
  · exact nomatch h
  · split at h
    · exact nomatch h
    · rename_i hk
      rw [← Except.error.inj h]
      exact hk

theorem ofError_of_kind {error : IoError} (h : error.kind ≠ .interrupted) :
    Life.ofError error = .failed error := by
  unfold Life.ofError
  rw [if_neg]
  rintro rfl
  exact h rfl

theorem classify_retry {error : IoError} :
    classifyTunError error = .retry ↔ error.kind = .wouldBlock ∨ error.kind = .interrupted := by
  unfold classifyTunError
  split
  · simp_all
  · split <;> simp_all

/-! ## The writer thread follows the policy -/

/-- On an open queue the loop sees only the queued packets. -/
theorem tunWriterLoop_eq_policy :
    ∀ (attempts : List TunAttempt) (queue : Queue Packet), queue.closed = false →
      tunWriterLoop attempts queue = policyDeliver attempts queue.items
  | [], queue, _ => rfl
  | attempt :: attempts, queue, hopen => by
      rcases Queue.pop_cases queue with ⟨hi, -, hp⟩ | ⟨hc, -⟩ | ⟨x, rest, hi, -, hp⟩
      · simp only [tunWriterLoop, Queue.peek, hp, hi, policyDeliver]
      · exact absurd (hopen.symm.trans hc) Bool.false_ne_true
      · have hrest := tunWriterLoop_eq_policy attempts queue.dropFront hopen
        rw [Queue.dropFront_items, hi, List.tail_cons] at hrest
        -- Restoring the reservation gives back the queue that was found.
        have hdrop : (⟨x⟩ : QueueFront Packet).drop queue.dropFront = queue :=
          QueueFront.drop_dropFront hi
        have hback := tunWriterLoop_eq_policy attempts queue hopen
        rw [hi] at hback
        simp only [tunWriterLoop, Queue.peek, hp, Option.map_some, QueueFront.value, QueueFront.pop,
          hi, policyDeliver, verdict, hrest, hback, hdrop]
        cases hw : attempt.write with
        | ok written => by_cases hlen : written = x.length <;> simp [hlen]
        | error error => cases hclass : classifyTunError error <;> simp [hclass]

/-! ## The receive path, one attempt at a time -/

theorem decryptDeliver_nil (packets : List Packet) :
    decryptDeliver [] packets = .rest packets .stopping := by
  cases packets with
  | nil => simp only [decryptDeliver]
  | cons p ps =>
      rw [decryptDeliver]
      simp only [writeTunPacket]
      rfl

theorem decryptDeliver_written {packet : Packet} {attempt : TunAttempt}
    (hw : attempt.write = .ok packet.length) (attempts : List TunAttempt) (packets : List Packet) :
    decryptDeliver (attempt :: attempts) (packet :: packets) =
      (decryptDeliver attempts packets).wrote packet := by
  rw [decryptDeliver]
  simp only [writeTunPacket, hw, if_true]

theorem decryptDeliver_retry {packet : Packet} {attempt : TunAttempt}
    (hw : writeTunPacket packet (attempt :: attempts) = writeTunPacket packet attempts)
    (packets : List Packet) :
    decryptDeliver (attempt :: attempts) (packet :: packets) =
      decryptDeliver attempts (packet :: packets) := by
  rw [decryptDeliver, decryptDeliver, hw]

theorem decryptDeliver_error {packet : Packet} {attempt : TunAttempt} {error : IoError}
    {left : List TunAttempt} (hw : writeTunPacket packet (attempt :: attempts) = (.error error, left))
    (hk : error.kind ≠ .interrupted) (packets : List Packet) :
    decryptDeliver (attempt :: attempts) (packet :: packets) =
      .rest (packet :: packets) (.failed error) := by
  rw [decryptDeliver, hw]
  simp only [ofError_of_kind hk]

/-- The receive path makes of a handled attempt what the policy makes of it. -/
theorem decryptDeliver_handled {packet : Packet} {attempt : TunAttempt}
    (h : Handled packet attempt) (attempts : List TunAttempt) (packets : List Packet) :
    decryptDeliver (attempt :: attempts) (packet :: packets) =
      match verdict packet attempt with
      | .written => (decryptDeliver attempts packets).wrote packet
      | .retry => decryptDeliver attempts (packet :: packets)
      | .lost => (decryptDeliver attempts packets).gaveUp packet
      | .fatal error => .rest (packet :: packets) (.failed error) := by
  obtain ⟨hfull, herror⟩ := h
  cases hw : attempt.write with
  | ok written =>
      obtain rfl := hfull written hw
      simp only [verdict, hw, if_true]
      exact decryptDeliver_written hw attempts packets
  | error error =>
      obtain ⟨hdrop, hpoll⟩ := herror error hw
      cases hclass : classifyTunError error with
      | retry =>
          simp only [verdict, hw, hclass]
          refine decryptDeliver_retry ?_ packets
          by_cases hint : error.kind = .interrupted
          · simp only [writeTunPacket, hw, hint, if_true]
          · have hblock := (classify_retry.mp hclass).resolve_right hint
            simp only [writeTunPacket, hw, hblock, reduceCtorEq, if_false, if_true]
            rw [hpoll hblock]
      | dropPacket => exact absurd hclass hdrop
      | fatal =>
          have hnot : ¬ (error.kind = .wouldBlock ∨ error.kind = .interrupted) := fun hk =>
            nomatch (classify_retry.mpr hk).symm.trans hclass
          rw [not_or] at hnot
          simp only [verdict, hw, hclass]
          have herr : writeTunPacket packet (attempt :: attempts) = (.error error, attempts) := by
            simp only [writeTunPacket, hw, if_neg hnot.1, if_neg hnot.2]
          exact decryptDeliver_error herr hnot.2 packets

/-- An attempt that is not handled separates the two at once. -/
theorem handled_of_agree {packet : Packet} {attempt : TunAttempt} {packets : List Packet}
    (h : decryptDeliver [attempt] (packet :: packets) = policyDeliver [attempt] (packet :: packets)) :
    Handled packet attempt := by
  -- The policy, stopped after this attempt, fails only on a fatal error.
  have hlife := congrArg Delivery.life h
  refine ⟨fun written hw => ?_, fun error hw => ⟨fun hclass => ?_, fun hblock => ?_⟩⟩
  · by_contra hne
    have hshort : writeTunPacket packet [attempt] =
        (.error (partialTunWrite written packet.length), []) := by
      simp only [writeTunPacket, hw, if_neg hne]
    rw [decryptDeliver_error hshort (by simp [partialTunWrite, IoError.new])] at hlife
    simp [policyDeliver, verdict, hw, hne, Delivery.rest, Delivery.gaveUp] at hlife
  · have hnot : ¬ (error.kind = .wouldBlock ∨ error.kind = .interrupted) := fun hk =>
      nomatch (classify_retry.mpr hk).symm.trans hclass
    rw [not_or] at hnot
    have herr : writeTunPacket packet [attempt] = (.error error, []) := by
      simp only [writeTunPacket, hw, if_neg hnot.1, if_neg hnot.2]
    rw [decryptDeliver_error herr hnot.2] at hlife
    simp [policyDeliver, verdict, hw, hclass, Delivery.rest, Delivery.gaveUp] at hlife
  · cases hp : poll attempt.libcPoll with
    | ok _ => rfl
    | error e =>
        have herr : writeTunPacket packet [attempt] = (.error e, []) := by
          simp [writeTunPacket, hw, hblock, hp]
        rw [decryptDeliver_error herr (poll_error_kind hp)] at hlife
        have hclass := classify_retry.mpr (.inl hblock)
        simp [policyDeliver, verdict, hw, hclass, Delivery.rest] at hlife

theorem decrypt_agrees_iff :
    ∀ (attempts : List TunAttempt) (packets : List Packet),
      (∀ n, decryptDeliver (attempts.take n) packets = policyDeliver (attempts.take n) packets) ↔
        ∀ pa ∈ attempted attempts packets, Handled pa.1 pa.2
  | [], packets => by
      simp [attempted, decryptDeliver_nil, policyDeliver]
  | attempt :: attempts, [] => by
      refine ⟨fun _ pa hpa => absurd hpa List.not_mem_nil, fun _ n => ?_⟩
      cases n <;> simp only [List.take_zero, List.take_succ_cons, decryptDeliver, policyDeliver]
  | attempt :: attempts, packet :: packets => by
      constructor
      · intro hagree
        have hhandled : Handled packet attempt := handled_of_agree (hagree 1)
        have hnext := fun n => hagree (n + 1)
        simp only [List.take_succ_cons, decryptDeliver_handled hhandled, policyDeliver] at hnext
        rw [attempted, List.forall_mem_cons]
        refine ⟨hhandled, ?_⟩
        cases hv : verdict packet attempt with
        | written =>
            simp only [hv] at hnext ⊢
            exact (decrypt_agrees_iff attempts packets).mp fun n => Delivery.wrote_inj (hnext n)
        | retry =>
            simp only [hv] at hnext ⊢
            exact (decrypt_agrees_iff attempts (packet :: packets)).mp hnext
        | lost =>
            simp only [hv] at hnext ⊢
            exact (decrypt_agrees_iff attempts packets).mp fun n => Delivery.gaveUp_inj (hnext n)
        | fatal error => simp
      · intro hall n
        rw [attempted, List.forall_mem_cons] at hall
        obtain ⟨hhandled, hrest⟩ := hall
        cases n with
        | zero => rw [List.take_zero, decryptDeliver_nil, policyDeliver]
        | succ n =>
            rw [List.take_succ_cons, decryptDeliver_handled hhandled, policyDeliver]
            cases hv : verdict packet attempt with
            | written =>
                simp only [hv] at hrest ⊢
                rw [(decrypt_agrees_iff attempts packets).mpr hrest n]
            | retry =>
                simp only [hv] at hrest ⊢
                rw [(decrypt_agrees_iff attempts (packet :: packets)).mpr hrest n]
            | lost =>
                simp only [hv] at hrest ⊢
                rw [(decrypt_agrees_iff attempts packets).mpr hrest n]
            | fatal error => rfl

/-- **The receive path follows the TUN error policy exactly as long as every
attempt is handled.**  Whatever the packets and the outcomes of the device,
`write_tun_packet` under its caller does to the packets and to the server what
the writer thread does, at every moment, if and only if none of the attempts
made is a short write, an error the policy only drops the packet for, or a
`WouldBlock` whose poll fails. -/
theorem write_tun_packet_follows_policy_iff (attempts : List TunAttempt) (queue : Queue Packet)
    (hopen : queue.closed = false) :
    (∀ n, decryptDeliver (attempts.take n) queue.items = tunWriterLoop (attempts.take n) queue) ↔
      ∀ pa ∈ attempted attempts queue.items, Handled pa.1 pa.2 := by
  rw [← decrypt_agrees_iff]
  exact forall_congr' fun n => by rw [tunWriterLoop_eq_policy _ _ hopen]

/-- One packet of three bytes, interrupted once and then written. -/
theorem write_tun_packet_follows_policy_interrupted :
    decryptDeliver
        (([⟨.error (.new .interrupted ""), .ok ()⟩, ⟨.ok 3, .ok ()⟩] : List TunAttempt).take 2)
        ((Queue.fresh 4 (by decide)).withItems [[1, 2, 3]] rfl (by decide)).items =
      tunWriterLoop
        (([⟨.error (.new .interrupted ""), .ok ()⟩, ⟨.ok 3, .ok ()⟩] : List TunAttempt).take 2)
        ((Queue.fresh 4 (by decide)).withItems [[1, 2, 3]] rfl (by decide)) := by
  refine (write_tun_packet_follows_policy_iff
    [⟨.error (.new .interrupted ""), .ok ()⟩, ⟨.ok 3, .ok ()⟩]
    ((Queue.fresh 4 (by decide)).withItems [[1, 2, 3]] rfl (by decide)) rfl).mpr ?_ 2
  intro pa hpa
  rcases List.mem_cons.mp hpa with rfl | hpa
  · refine ⟨nofun, fun error he => ?_⟩
    obtain rfl := Except.error.inj he
    exact ⟨by decide, nofun⟩
  · obtain rfl := List.mem_singleton.mp hpa
    exact ⟨fun written hw => (Except.ok.inj hw).symm, nofun⟩

/-- One `ENOBUFS` on the first of two packets, then room: the writer thread
gives up the one packet and writes the other, the receive path ends the server
with neither written. -/
theorem enobufs_stops_decrypt_worker :
    decryptDeliver
        [⟨.error { kind := .uncategorized, rawOsError := some ENOBUFS, message := "" }, .ok ()⟩,
          ⟨.ok 1, .ok ()⟩, ⟨.ok 1, .ok ()⟩] [[1], [2]] =
      { written := [], lost := [], remaining := [[1], [2]],
        life := .failed { kind := .uncategorized, rawOsError := some ENOBUFS, message := "" } } ∧
    tunWriterLoop
        [⟨.error { kind := .uncategorized, rawOsError := some ENOBUFS, message := "" }, .ok ()⟩,
          ⟨.ok 1, .ok ()⟩, ⟨.ok 1, .ok ()⟩]
        ((Queue.fresh 4 (by decide)).withItems [[1], [2]] rfl (by decide)) =
      { written := [[2]], lost := [[1]], remaining := [], life := .serving } := by
  constructor
  · simp only [decryptDeliver, writeTunPacket]
    decide
  · decide

end AutobricksVpn
