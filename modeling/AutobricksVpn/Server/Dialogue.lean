/-
# `AutobricksVpn.Server.Dialogue` — what the server says to a session

The messages put on the plaintext queue of a session, over its life, are words
of one grammar (`Dialogue`): nothing, a challenge, a challenge and a rejection,
or `AUTH_OK` with or without a challenge before it and then traffic.  Three
places of two workers push to the queue.  That they agree on the grammar rests
on the flags of the session, which `Conversed` ties to what was said already:

    pending                          nothing
    established, no login read       the challenge
    established, a login refused     the challenge and the rejection
    authenticated                    AUTH_OK and traffic, perhaps after a challenge

A session in one of these phases takes its next step to another of them
(`conversed`), so a life is a word of the grammar at every moment, and remains
one when the session is gone.
-/
import AutobricksVpn.Server.Shifts

namespace AutobricksVpn

/-! ## The grammar -/

abbrev Message := Packet × Origin

/-- What an authenticated session is sent: packets of TUN, and answers to its keepalives. -/
def Traffic (messages : List Message) : Prop :=
  ∀ m ∈ messages, m = (KEEPALIVE_PACKET, .keepalive) ∨
    m.2 = .tunnel ∧ (ipv4PacketAddresses m.1).isSome = true

inductive Dialogue : List Message → Prop
  | silent : Dialogue []
  | open {traffic : List Message} : Traffic traffic → Dialogue ((AUTH_OK, .auth) :: traffic)
  | challenged : Dialogue [(AUTH_REQUIRED, .auth)]
  | rejected : Dialogue [(AUTH_REQUIRED, .auth), (AUTH_FAILED, .auth)]
  | loggedIn {traffic : List Message} : Traffic traffic →
      Dialogue ((AUTH_REQUIRED, .auth) :: (AUTH_OK, .auth) :: traffic)

def Event.pushed? : Event → Option Message
  | .queued _ packet origin => some (packet, origin)
  | _ => none

/-- The messages pushed by `queue_session_plain` for session `n`, in order. -/
def pushedTo (n : Nat) (tr : List Event) : List Message := (eventsOf n tr).filterMap Event.pushed?

/-- The messages pushed in a life. -/
def pushed (log : List Observation) : List Message :=
  (log.filterMap Observation.event?).filterMap Event.pushed?

/-! ## Phases -/

/-- The flags of a session say what it was told already. -/
inductive Conversed (e : Entry) : List Message → Prop
  | pending : e.established = false → e.authenticated = false → e.loginAttempted = false →
      Conversed e []
  | challenged : e.established = true → e.authenticated = false → e.loginAttempted = false →
      Conversed e [(AUTH_REQUIRED, .auth)]
  | rejected : e.established = true → e.authenticated = false → e.loginAttempted = true →
      Conversed e [(AUTH_REQUIRED, .auth), (AUTH_FAILED, .auth)]
  | open {traffic : List Message} : e.established = true → e.authenticated = true →
      Traffic traffic → Conversed e ((AUTH_OK, .auth) :: traffic)
  | loggedIn {traffic : List Message} : e.established = true → e.authenticated = true →
      Traffic traffic → Conversed e ((AUTH_REQUIRED, .auth) :: (AUTH_OK, .auth) :: traffic)

section Phases

variable {cfg : ServerConfig} {rules : Rules} {now : Instant} {s : ServerState} {a : Action}
  {e : Entry} {α α' : Account} {log : List Observation} {messages : List Message}

theorem Conversed.dialogue : Conversed e messages → Dialogue messages := by
  intro h
  cases h with
  | pending => exact .silent
  | challenged => exact .challenged
  | rejected => exact .rejected
  | «open» _ _ htraffic => exact .open htraffic
  | loggedIn _ _ htraffic => exact .loggedIn htraffic

theorem Conversed.silent_of_pending :
    Conversed e messages → e.established = false →
    messages = [] ∧ e.authenticated = false ∧ e.loginAttempted = false := by
  intro h hpend
  cases h with
  | pending _ hauth hattempted => exact ⟨rfl, hauth, hattempted⟩
  | challenged hest | rejected hest | «open» hest | loggedIn hest =>
      rw [hpend] at hest
      exact absurd hest Bool.false_ne_true

/-- A session that may log in was challenged, and that is all. -/
theorem Conversed.challenged_of_owing :
    Conversed e messages → e.established = true → e.authenticated = false →
    e.loginAttempted = false → messages = [(AUTH_REQUIRED, .auth)] := by
  intro h hest hauth hattempted
  cases h with
  | challenged => rfl
  | pending hpend =>
      rw [hpend] at hest
      exact absurd hest Bool.false_ne_true
  | rejected _ _ htried =>
      rw [hattempted] at htried
      exact absurd htried Bool.false_ne_true
  | «open» _ hyes | loggedIn _ hyes =>
      rw [hauth] at hyes
      exact absurd hyes Bool.false_ne_true

theorem Traffic.append {traffic : List Message} {m : Message} :
    Traffic traffic → m = (KEEPALIVE_PACKET, .keepalive) ∨
      m.2 = .tunnel ∧ (ipv4PacketAddresses m.1).isSome = true → Traffic (traffic ++ [m]) := by
  intro h hm m' hmem
  rcases List.mem_append.mp hmem with hmem | hmem
  · exact h m' hmem
  · rw [List.mem_singleton.mp hmem]
    exact hm

/-- Traffic may follow what an authenticated session was told. -/
theorem Conversed.traffic {m : Message} :
    Conversed e messages → e.authenticated = true →
    m = (KEEPALIVE_PACKET, .keepalive) ∨ m.2 = .tunnel ∧ (ipv4PacketAddresses m.1).isSome = true →
    Conversed e (messages ++ [m]) := by
  intro h hauth hm
  cases h with
  | pending _ hno | challenged _ hno | rejected _ hno =>
      rw [hno] at hauth
      exact absurd hauth Bool.false_ne_true
  | «open» hest _ htraffic => exact .open hest hauth (htraffic.append hm)
  | loggedIn hest _ htraffic => exact .loggedIn hest hauth (htraffic.append hm)

theorem pushed_append {log' : List Observation} :
    pushed (log ++ log') = pushed log ++ pushed log' := by
  rw [pushed, List.filterMap_append, List.filterMap_append, pushed, pushed]

/-- The phase a completed handshake leads to. -/
theorem Conversed.established {address : Ipv4Addr} {fingerprint : String} :
    Conversed e messages → e.established = false →
    Conversed (e.establish address fingerprint (rules.logins.lookup address).isNone now)
      (messages ++ [(handshakeAnswer rules address, .auth)]) := by
  intro h hpend
  obtain ⟨rfl, -, hattempted⟩ := h.silent_of_pending hpend
  unfold handshakeAnswer
  cases hnone : (rules.logins.lookup address).isNone with
  | true => exact .open rfl rfl fun _ hm => absurd hm List.not_mem_nil
  | false => exact .challenged rfl rfl hattempted

/-- A step of a session leads from phase to phase. -/
theorem Change.conversed :
    Change cfg rules now α α' log → Conversed α.entry messages →
    Conversed α'.entry (messages ++ pushed log) := by
  intro hc h
  have hsame : Conversed α.entry (messages ++ []) := by rwa [List.append_nil]
  cases hc with
  | @wrote packets _ _ _ =>
      rw [pushed, filterMap_written]
      exact hsame
  | routed _ hauth hroutable =>
      obtain ⟨destination, hdestination, -⟩ := hroutable
      obtain ⟨source, haddresses⟩ := ipv4Destination_some hdestination
      exact h.traffic hauth (.inr ⟨rfl, by rw [haddresses]; rfl⟩)
  | read _ => exact hsame
  | keepalive _ hauth => exact h.traffic hauth (.inl rfl)
  | delivered _ _ _ => exact hsame
  | undelivered _ _ _ => exact hsame
  | loggedIn hest hauth hattempted _ =>
      rw [h.challenged_of_owing hest hauth hattempted]
      exact .loggedIn hest rfl fun _ hm => absurd hm List.not_mem_nil
  | loginRejected hest hauth hattempted _ =>
      rw [h.challenged_of_owing hest hauth hattempted]
      exact .rejected hest rfl rfl
  | @established x y c hpend hx _ =>
      have hpushed : pushed (.logged (.queued x (handshakeAnswer rules c.address) .auth) ::
          .logged (.access (.established x.entry c.evidence)) ::
          if x.entry.authenticated then [.logged (.connected y)] else []) =
          [(handshakeAnswer rules c.address, .auth)] := by
        cases x.entry.authenticated <;> rfl
      rw [hpushed, Account.queues, hx]
      exact h.established hpend

/-- The messages that wait on the queue. -/
def Account.waiting (α : Account) : List Packet := α.rawTxQueue.items.map Prod.fst

theorem waiting_queues (packet : Packet) :
    ((α.queues now packet).waiting).Sublist (α.waiting ++ [packet]) := by
  have hpush := (α.rawTxQueue.pushIgnore_sublist (packet, now)).map Prod.fst
  rwa [List.map_append] at hpush

/-- What is put on the queue is said, and nothing is put there otherwise. -/
theorem Change.waiting :
    Change cfg rules now α α' log →
    α'.waiting.Sublist (α.waiting ++ (pushed log).map Prod.fst) := by
  intro hc
  have hsame : α.waiting.Sublist (α.waiting ++ []) := List.sublist_append_left _ _
  cases hc with
  | @wrote packets _ hsub _ =>
      rw [pushed, filterMap_written]
      exact (hsub.map Prod.fst).trans hsame
  | routed | keepalive | loggedIn | loginRejected => exact waiting_queues _
  | read | delivered | undelivered => exact hsame
  | @established x y c _ _ _ =>
      have hpushed : (pushed (.logged (.queued x (handshakeAnswer rules c.address) .auth) ::
          .logged (.access (.established x.entry c.evidence)) ::
          if x.entry.authenticated then [.logged (.connected y)] else [])).map Prod.fst =
          [handshakeAnswer rules c.address] := by
        cases x.entry.authenticated <;> rfl
      rw [hpushed]
      exact waiting_queues _

/-- What was said to a session that leaves is a word of the grammar. -/
theorem Leave.dialogue :
    Leave cfg s a α log → Conversed α.entry messages → Dialogue (messages ++ pushed log) := by
  intro hleave h
  cases hleave with
  | dropped =>
      rw [show messages ++ pushed [.logged (.dropped _)] = messages from List.append_nil _]
      exact h.dialogue
  | @refused _ x _ c _ hpend hx _ =>
      have hestablished : Conversed x.entry _ := hx ▸ h.established hpend
      exact hestablished.dialogue

end Phases

/-! ## Every life -/

section Grammar

variable {cfg : ServerConfig} {rules : Rules} {G : ServerState → Action → Prop} {as : List Action}
  {tr : List Event} {s : ServerState}

/-- What `Conversed` says of sessions, and what waits on their queues, in the form of the
rule. -/
theorem lived_conversed {a : Action} :
    Lived cfg s a
      (fun l α => Conversed α.entry (pushed l) ∧ α.waiting.Sublist ((pushed l).map Prod.fst))
      (fun l => Dialogue (pushed l)) where
  created _ _ _ := ⟨.pending rfl rfl rfl, List.Sublist.refl _⟩
  change hc h := by
    rw [pushed_append, List.map_append]
    exact ⟨hc.conversed h.1, hc.waiting.trans (h.2.append_right _)⟩
  leave hleave h := by
    rw [pushed_append]
    exact hleave.dialogue h.1

/-- **One grammar.**  In every run, the messages pushed for a session over its
life are a word of the grammar, whether the session is still there or not; and what stands
on its queue is some of these messages, in the same order. -/
theorem login_grammar :
    (server cfg rules).Run Machine.Free as tr s →
    (∀ n, Dialogue (pushedTo n tr)) ∧
    ∀ x ∈ s.sessions,
      (x.rawTxQueue.items.map Prod.fst).Sublist ((pushedTo x.serial tr).map Prod.fst) := by
  intro hr
  obtain ⟨log, hlog, rfl⟩ := observed_of_run hr
  have hliving := Run.living hlog (fun _ _ _ => lived_conversed) .silent
  have hlife : ∀ n, pushedTo n (log.filterMap Observation.event?) = pushed (life n log) := by
    intro n
    rw [pushedTo, ← life_event?, ← pushed]
  refine ⟨fun n => ?_, fun x hx => ?_⟩
  · rw [hlife]
    by_cases hn : ∃ x ∈ s.sessions, x.serial = n
    · obtain ⟨x, hx, rfl⟩ := hn
      exact (hliving.session hx).1.dialogue
    · exact hliving.gone fun x hx heq => hn ⟨x, hx, heq⟩
  · rw [hlife]
    exact (hliving.session hx).2

/-- A client logs in and sends a keepalive. -/
def Sample.conversation : List Action :=
  turn silent 1 false ++ turn silent 1 true ++
    turn (reads 0 (loginFrame (asBytes "alice") (asBytes "secret"))) 1 false ++
    turn (reads 0 KEEPALIVE_PACKET) 1 false

theorem login_grammar_conversation :
    pushedTo 0 (Sample.outcome (some ("alice", "secret")) Sample.conversation).2 =
        [(AUTH_REQUIRED, .auth), (AUTH_OK, .auth), (KEEPALIVE_PACKET, .keepalive)] ∧
      Dialogue (pushedTo 0 (Sample.outcome (some ("alice", "secret")) Sample.conversation).2) ∧
      ∀ x ∈ (Sample.outcome (some ("alice", "secret")) Sample.conversation).1.sessions,
        (x.rawTxQueue.items.map Prod.fst).Sublist ((pushedTo x.serial
          (Sample.outcome (some ("alice", "secret")) Sample.conversation).2).map Prod.fst) := by
  have hrun : (server Sample.config (Sample.rules (some ("alice", "secret")))).Run Machine.Free
      Sample.conversation (Sample.outcome (some ("alice", "secret")) Sample.conversation).2
      (Sample.outcome (some ("alice", "secret")) Sample.conversation).1 :=
    run_sample (by decide +kernel)
  obtain ⟨hgrammar, hwaiting⟩ := login_grammar hrun
  exact ⟨by decide +kernel, hgrammar 0, hwaiting⟩

end Grammar

end AutobricksVpn
