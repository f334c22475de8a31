/-
# `AutobricksVpn.Web.Issuance` — an issuance that fails, and the other requests

An issue handler saves a client, waits for the server, and removes the *address*
when the server did not take it.  Compared with the run of the other requests
alone, the registry has one client more while it waits, or none if somebody
removed the address (`Extends`); and the removal brings the two together, unless
somebody saved the address, or was refused because of the client (`Apart`).

    while waiting:   real ~ alone ++ [client]   or   real ~ alone
    after it:        real ~ alone                          (`follows_of_own`)

A registry is what its clients are, in any order; what the proofs use of it is
`Lawful`.
-/
import AutobricksVpn.Lib.Machine
import AutobricksVpn.Web.App

namespace AutobricksVpn

namespace Web

/-! ## Lists of clients -/

section Clients

def Registered (clients : List Client) (vpnAddress : Text) : Prop :=
  ∃ client ∈ clients, client.vpnAddress = vpnAddress

/-- No other address has the fingerprint. -/
def Free (clients : List Client) (client : Client) : Prop :=
  ∀ other ∈ clients, other.fingerprint = client.fingerprint → other.vpnAddress = client.vpnAddress

variable {clients real alone : List Client} {client saved : Client} {pending : Option Client}
  {vpnAddress : Text}

theorem without_append (clients others : List Client) (vpnAddress : Text) :
    without (clients ++ others) vpnAddress =
      without clients vpnAddress ++ without others vpnAddress :=
  List.filter_append ..

theorem mem_without {other : Client} :
    other ∈ without clients vpnAddress ↔ other ∈ clients ∧ other.vpnAddress ≠ vpnAddress := by
  rw [without, List.mem_filter, decide_eq_true_eq]

theorem without_eq_self : ¬ Registered clients vpnAddress → without clients vpnAddress = clients := by
  intro h
  refine List.filter_eq_self.mpr fun other hother => decide_eq_true fun heq => ?_
  exact h ⟨other, hother, heq⟩

theorem without_single : without [client] client.vpnAddress = [] := by
  rw [without, List.filter_cons_of_neg (by simp)]
  rfl

theorem without_single_of_ne (h : client.vpnAddress ≠ vpnAddress) :
    without [client] vpnAddress = [client] := by
  rw [without, List.filter_cons_of_pos (by simpa using h)]
  rfl

theorem without_perm (h : real.Perm alone) (vpnAddress : Text) :
    (without real vpnAddress).Perm (without alone vpnAddress) :=
  h.filter _

theorem registered_perm (h : real.Perm alone) :
    Registered real vpnAddress ↔ Registered alone vpnAddress := by
  simp only [Registered, h.mem_iff]

theorem free_perm (h : real.Perm alone) : Free real client ↔ Free alone client := by
  simp only [Free, h.mem_iff]

theorem registered_append_single :
    Registered (clients ++ [client]) vpnAddress ↔
      Registered clients vpnAddress ∨ client.vpnAddress = vpnAddress := by
  simp only [Registered, List.mem_append, List.mem_singleton, or_and_right, exists_or,
    exists_eq_left]

theorem free_append_single :
    Free (clients ++ [client]) saved ↔
      Free clients saved ∧
        (client.fingerprint = saved.fingerprint → client.vpnAddress = saved.vpnAddress) := by
  simp only [Free, List.mem_append, List.mem_singleton, or_imp, forall_and, forall_eq]

/-! ## One client more -/

/-- The first registry has the client more that is pending, if nobody removed it. -/
def Extends (pending : Option Client) (real alone : List Client) : Prop :=
  match pending with
  | none => real.Perm alone
  | some client =>
      ¬ Registered alone client.vpnAddress ∧ (real.Perm (alone ++ [client]) ∨ real.Perm alone)

theorem Extends.without (vpnAddress : Text) :
    Extends pending real alone →
    Extends pending (without real vpnAddress) (without alone vpnAddress) := by
  intro h
  cases pending with
  | none => exact without_perm h vpnAddress
  | some client =>
      obtain ⟨habsent, h⟩ := h
      refine ⟨fun ⟨other, hother, heq⟩ => habsent ⟨other, (mem_without.mp hother).1, heq⟩, ?_⟩
      rcases h with h | h
      · have hperm := without_perm h vpnAddress
        rw [without_append] at hperm
        by_cases heq : client.vpnAddress = vpnAddress
        · subst heq
          rw [without_single, List.append_nil] at hperm
          exact .inr hperm
        · rw [without_single_of_ne heq] at hperm
          exact .inl hperm
      · exact .inr (without_perm h vpnAddress)

/-- What the rollback does. -/
theorem Extends.rollback (h : Extends (some client) real alone) :
    (Web.without real client.vpnAddress).Perm alone := by
  obtain ⟨habsent, h⟩ := h
  rcases h with h | h
  · have hperm := without_perm h client.vpnAddress
    rwa [without_append, without_single, List.append_nil, without_eq_self habsent] at hperm
  · have hperm := without_perm h client.vpnAddress
    rwa [without_eq_self habsent] at hperm

theorem Extends.registered_iff (h : Extends pending real alone)
    (hne : ∀ client ∈ pending, vpnAddress ≠ client.vpnAddress) :
    Registered real vpnAddress ↔ Registered alone vpnAddress := by
  cases pending with
  | none => exact registered_perm h
  | some client =>
      rcases h.2 with h | h
      · rw [registered_perm h, registered_append_single, or_iff_left]
        exact fun heq => hne client rfl heq.symm
      · exact registered_perm h

theorem Extends.free_iff (h : Extends pending real alone)
    (hne : ∀ client ∈ pending, saved.fingerprint = client.fingerprint →
      ¬ Registered real client.vpnAddress) : Free real saved ↔ Free alone saved := by
  cases pending with
  | none => exact free_perm h
  | some client =>
      rcases h.2 with h | h
      · rw [free_perm h, free_append_single, and_iff_left]
        intro heq
        refine absurd ?_ (hne client rfl heq.symm)
        rw [registered_perm h, registered_append_single]
        exact .inr rfl
      · exact free_perm h

theorem Extends.save (h : Extends pending real alone)
    (hne : ∀ client ∈ pending, saved.vpnAddress ≠ client.vpnAddress) :
    Extends pending (Web.without real saved.vpnAddress ++ [saved])
      (Web.without alone saved.vpnAddress ++ [saved]) := by
  have hwithout := h.without saved.vpnAddress
  cases pending with
  | none => exact List.Perm.append_right _ hwithout
  | some client =>
      obtain ⟨habsent, hperm⟩ := hwithout
      refine ⟨?_, ?_⟩
      · rw [registered_append_single, not_or]
        exact ⟨habsent, hne client rfl⟩
      · rcases hperm with hperm | hperm
        · refine .inl ((hperm.append_right _).trans ?_)
          rw [List.append_assoc, List.append_assoc]
          exact (List.Perm.swap saved client []).append_left _
        · exact .inr (hperm.append_right _)

theorem Extends.perm {real' alone' : List Client} (h : Extends pending real alone)
    (hreal : real'.Perm real) (halone : alone'.Perm alone) : Extends pending real' alone' := by
  cases pending with
  | none => exact (hreal.trans h).trans halone.symm
  | some client =>
      refine ⟨fun hregistered => h.1 ((registered_perm halone).mp hregistered), ?_⟩
      rcases h.2 with h | h
      · exact .inl ((hreal.trans h).trans (halone.symm.append_right _))
      · exact .inr ((hreal.trans h).trans halone.symm)

end Clients

/-! ## Registries -/

/-- What `saveClient` and `removeClient` do to the clients, in the states that are
`Good`: `check` is the client that there will be for an input, and `accepts` are
the addresses that may be removed. -/
structure Lawful {σ : Type} (R : Registry σ) (Good : σ → Prop)
    (check : SaveInput → Option Client) (accepts : Text → Prop) : Prop where
  check_address : ∀ {input client}, check input = some client →
    client.vpnAddress = input.vpnAddress ∧ accepts input.vpnAddress
  save_ok : ∀ {r input client}, Good r → check input = some client →
    Free (R.readClients r) client → ∃ r' listed, R.saveClient r input = .ok (r', listed) ∧
      Good r' ∧ (R.readClients r').Perm (without (R.readClients r) client.vpnAddress ++ [client])
  save_error : ∀ {r input}, Good r →
    (∀ client, check input = some client → ¬ Free (R.readClients r) client) →
    ∃ error, R.saveClient r input = .error error
  remove_ok : ∀ {r v}, Good r → accepts v → Registered (R.readClients r) v →
    ∃ r', R.removeClient r v = .ok r' ∧ Good r' ∧
      (R.readClients r').Perm (without (R.readClients r) v)
  remove_error : ∀ {r v}, Good r → (accepts v → ¬ Registered (R.readClients r) v) →
    ∃ error, R.removeClient r v = .error error

section Sides

variable {σ : Type} {R : Registry σ} {Good : σ → Prop} {check : SaveInput → Option Client}
  {accepts : Text → Prop} {pending : Option Client} {real alone : σ}

/-- The states of the two runs. -/
structure Sides (R : Registry σ) (Good : σ → Prop) (pending : Option Client) (real alone : σ) :
    Prop where
  goodReal : Good real
  goodAlone : Good alone
  clients : Extends pending (R.readClients real) (R.readClients alone)

/-- The input is saved on both sides, or on none. -/
theorem Sides.save (lawful : Lawful R Good check accepts) (h : Sides R Good pending real alone)
    {input : SaveInput}
    (hapart : ∀ client ∈ pending, ∀ saved ∈ check input, saved.vpnAddress ≠ client.vpnAddress ∧
      (saved.fingerprint = client.fingerprint →
        ¬ Registered (R.readClients real) client.vpnAddress)) :
    (∃ saved real' alone' listed listed', check input = some saved ∧
        R.saveClient real input = .ok (real', listed) ∧
        R.saveClient alone input = .ok (alone', listed') ∧ Sides R Good pending real' alone') ∨
      ∃ error error', R.saveClient real input = .error error ∧
        R.saveClient alone input = .error error' := by
  by_cases hsaves : ∃ saved, check input = some saved ∧ Free (R.readClients real) saved
  · obtain ⟨saved, hcheck, hreal⟩ := hsaves
    have halone := (h.clients.free_iff fun client hp => (hapart client hp saved hcheck).2).mp hreal
    obtain ⟨real', listed, hsave, hgood, hperm⟩ := lawful.save_ok h.goodReal hcheck hreal
    obtain ⟨alone', listed', hsave', hgood', hperm'⟩ := lawful.save_ok h.goodAlone hcheck halone
    refine .inl ⟨saved, real', alone', listed, listed', hcheck, hsave, hsave', hgood, hgood', ?_⟩
    have hclients := h.clients.save fun client hp => (hapart client hp saved hcheck).1
    exact hclients.perm hperm hperm'
  · right
    have hnone : ∀ saved, check input = some saved → ¬ Free (R.readClients real) saved :=
      fun saved hcheck hfree => hsaves ⟨saved, hcheck, hfree⟩
    have hnone' : ∀ saved, check input = some saved → ¬ Free (R.readClients alone) saved :=
      fun saved hcheck hfree => hnone saved hcheck
        ((h.clients.free_iff fun client hp => (hapart client hp saved hcheck).2).mpr hfree)
    obtain ⟨error, hsave⟩ := lawful.save_error h.goodReal hnone
    obtain ⟨error', hsave'⟩ := lawful.save_error h.goodAlone hnone'
    exact ⟨error, error', hsave, hsave'⟩

/-- The state after `removeClient`, which leaves it as it was when it throws. -/
def removed (R : Registry σ) (r : σ) (vpnAddress : Text) : σ :=
  match R.removeClient r vpnAddress with
  | .ok r' => r'
  | .error _ => r

theorem removed_spec (lawful : Lawful R Good check accepts) {r : σ} (hgood : Good r) {v : Text} :
    Good (removed R r v) ∧ (accepts v →
      (R.readClients (removed R r v)).Perm (without (R.readClients r) v)) ∧
      (¬ accepts v → removed R r v = r) := by
  unfold removed
  by_cases hremoves : accepts v ∧ Registered (R.readClients r) v
  · obtain ⟨r', hremove, hgood', hperm⟩ := lawful.remove_ok hgood hremoves.1 hremoves.2
    rw [hremove]
    exact ⟨hgood', fun _ => hperm, fun hrefused => absurd hremoves.1 hrefused⟩
  · obtain ⟨error, hremove⟩ := lawful.remove_error hgood fun ha hr => hremoves ⟨ha, hr⟩
    rw [hremove]
    refine ⟨hgood, fun haccepts => ?_, fun _ => rfl⟩
    rw [without_eq_self fun hr => hremoves ⟨haccepts, hr⟩]

theorem Sides.remove (lawful : Lawful R Good check accepts) (h : Sides R Good pending real alone)
    (vpnAddress : Text) :
    Sides R Good pending (removed R real vpnAddress) (removed R alone vpnAddress) := by
  obtain ⟨hgood, hperm, hsame⟩ := removed_spec lawful h.goodReal (v := vpnAddress)
  obtain ⟨hgood', hperm', hsame'⟩ := removed_spec lawful h.goodAlone (v := vpnAddress)
  refine ⟨hgood, hgood', ?_⟩
  by_cases haccepts : accepts vpnAddress
  · exact (h.clients.without vpnAddress).perm (hperm haccepts) (hperm' haccepts)
  · rw [hsame haccepts, hsame' haccepts]
    exact h.clients

end Sides

/-! ## Parts of handlers -/

section Steps

variable {σ : Type} {R : Registry σ} {Good : σ → Prop} {check : SaveInput → Option Client}
  {accepts : Text → Prop} {pending : Option Client} {real alone : σ} {connected : Connected}

/-- A handler that has no more to do with the registry. -/
def Quiet : Handler → Prop
  | .deleteReload | .ended _ => True
  | .issueReady _ | .issueReload _ _ | .deleteReady _ => False

/-- An issue handler that has not succeeded. -/
inductive Issuing (check : SaveInput → Option Client) : Option Handler → Prop
  | absent : Issuing check none
  | ready (body : IssueBody) : Issuing check (some (.issueReady body))
  | reload (body : IssueBody) (issued : Issued) (client : Client) :
      check (body.input issued) = some client → Issuing check (some (.issueReload body issued))
  | failed (response : Response) :
      response.isError = true → Issuing check (some (.ended response))

/-- The client that an issue handler has saved, while it waits. -/
def pendingOf (check : SaveInput → Option Client) : Option Handler → Option Client
  | some (.issueReload body issued) => check (body.input issued)
  | _ => none

theorem isError_errorResponse (error : WebError) : (errorResponse error).isError = true := by
  unfold errorResponse
  split <;> rfl

theorem rollback_eq (registry : σ) (vpnAddress : Text) (message : String) :
    ∃ error, rollback R registry vpnAddress message =
      (removed R registry vpnAddress, failed error) := by
  unfold rollback removed
  cases R.removeClient registry vpnAddress with
  | error error => exact ⟨error, rfl⟩
  | ok registry => exact ⟨_, rfl⟩

theorem deleteReady_ok (registry : σ) (vpnAddress : Text) :
    (deleteReady R registry vpnAddress .ok).1 = removed R registry vpnAddress ∧
      Quiet (deleteReady R registry vpnAddress .ok).2 := by
  unfold deleteReady removed
  cases R.removeClient registry vpnAddress with
  | error error => exact ⟨rfl, trivial⟩
  | ok registry => exact ⟨rfl, trivial⟩

theorem listed_any (registry : σ) (vpnAddress : Text) :
    ((R.listClients registry).any fun client => client.vpnAddress == vpnAddress) = true ↔
      Registered (R.readClients registry) vpnAddress := by
  rw [Registry.listClients, List.any_map, List.any_eq_true]
  simp only [Registered, Function.comp_apply, Client.listed, beq_iff_eq]

/-- The first part after an await, of the handler that is compared. -/
theorem issueReady_own (lawful : Lawful R Good check accepts) (h : Sides R Good none real alone)
    (body : IssueBody) (ready : Reloaded) (issuance : Except WebError Issued) :
    Issuing check (some (issueReady R real body ready issuance).2) ∧
      Sides R Good (pendingOf check (some (issueReady R real body ready issuance).2))
        (issueReady R real body ready issuance).1 alone := by
  have hfails : ∀ error : WebError, Issuing check (some (failed error)) ∧
      Sides R Good (pendingOf check (some (failed error))) real alone := fun error =>
    ⟨.failed _ (isError_errorResponse error), h⟩
  unfold issueReady
  cases ready with
  | rejected message => exact hfails _
  | notOk => exact hfails _
  | ok =>
      dsimp only
      split
      · exact hfails _
      · rename_i hfresh
        rw [listed_any] at hfresh
        cases issuance with
        | error error => exact hfails _
        | ok issued =>
            dsimp only
            by_cases hsaves : ∃ client, check (body.input issued) = some client ∧
                Free (R.readClients real) client
            · obtain ⟨client, hcheck, hfree⟩ := hsaves
              obtain ⟨real', listed, hsave, hgood, hperm⟩ := lawful.save_ok h.goodReal hcheck hfree
              obtain ⟨haddress, -⟩ := lawful.check_address hcheck
              change client.vpnAddress = body.vpnAddress at haddress
              rw [hsave]
              refine ⟨.reload body issued client hcheck, hgood, h.goodAlone, ?_⟩
              have hnew : ¬ Registered (R.readClients real) client.vpnAddress := haddress ▸ hfresh
              rw [without_eq_self hnew] at hperm
              change Extends (check (body.input issued)) _ _
              rw [hcheck]
              exact ⟨fun hr => hnew ((registered_perm h.clients).mpr hr),
                .inl (hperm.trans (h.clients.append_right _))⟩
            · obtain ⟨error, hsave⟩ := lawful.save_error h.goodReal fun client hcheck hfree =>
                hsaves ⟨client, hcheck, hfree⟩
              rw [hsave]
              exact hfails _

/-- The second part: it succeeds, or takes the client back. -/
theorem issueReload_own (lawful : Lawful R Good check accepts) {body : IssueBody} {issued : Issued}
    {client : Client} (hcheck : check (body.input issued) = some client)
    (h : Sides R Good (some client) real alone) (result : Reloaded) :
    (∃ response, (issueReload R real body issued result).2 = .ended response ∧
        response.isError = false) ∨
      Issuing check (some (issueReload R real body issued result).2) ∧
        Sides R Good (pendingOf check (some (issueReload R real body issued result).2))
          (issueReload R real body issued result).1 alone := by
  obtain ⟨haddress, haccepts⟩ := lawful.check_address hcheck
  change client.vpnAddress = body.vpnAddress at haddress
  change accepts body.vpnAddress at haccepts
  obtain ⟨hgood, hperm, -⟩ := removed_spec lawful h.goodReal (v := body.vpnAddress)
  have hrolled : ∀ message, Issuing check (some (rollback R real body.vpnAddress message).2) ∧
      Sides R Good (pendingOf check (some (rollback R real body.vpnAddress message).2))
        (rollback R real body.vpnAddress message).1 alone := by
    intro message
    obtain ⟨error, heq⟩ := rollback_eq (R := R) real body.vpnAddress message
    rw [heq]
    refine ⟨.failed _ (isError_errorResponse error), hgood, h.goodAlone, ?_⟩
    have hback := h.clients.rollback
    rw [haddress] at hback
    exact (hperm haccepts).trans hback
  cases result with
  | ok => exact .inl ⟨_, rfl, rfl⟩
  | notOk => exact .inr (hrolled _)
  | rejected message => exact .inr (hrolled _)

/-- The handlers of another request on the two sides. -/
def Alike (handler handler' : Handler) : Prop := handler = handler' ∨ Quiet handler ∧ Quiet handler'

/-- What a part of another handler leaves on the two sides. -/
structure Both (R : Registry σ) (Good : σ → Prop) (pending : Option Client)
    (result result' : σ × Handler) : Prop where
  sides : Sides R Good pending result.1 result'.1
  handlers : Alike result.2 result'.2

theorem Both.same (h : Sides R Good pending real alone) (handler : Handler) :
    Both R Good pending (real, handler) (alone, handler) :=
  ⟨h, .inl rfl⟩

theorem both_put (lawful : Lawful R Good check accepts) (h : Sides R Good pending real alone)
    {input : SaveInput}
    (hapart : ∀ client ∈ pending, ∀ saved ∈ check input, saved.vpnAddress ≠ client.vpnAddress ∧
      (saved.fingerprint = client.fingerprint →
        ¬ Registered (R.readClients real) client.vpnAddress)) :
    Both R Good pending (putClient R real input) (putClient R alone input) := by
  unfold putClient
  rcases h.save lawful hapart with
    ⟨_, real', alone', _, _, -, hreal, halone, hsides⟩ | ⟨_, _, hreal, halone⟩
  · rw [hreal, halone]
    exact ⟨hsides, .inr ⟨trivial, trivial⟩⟩
  · rw [hreal, halone]
    exact ⟨h, .inr ⟨trivial, trivial⟩⟩

/-- Another issue handler, about to save. -/
theorem both_issueReady (lawful : Lawful R Good check accepts)
    (h : Sides R Good pending real alone) {body : IssueBody} (ready : Reloaded)
    (issuance : Except WebError Issued)
    (hapart : ∀ issued, ready = .ok → issuance = .ok issued → ∀ client ∈ pending,
      ∀ saved ∈ check (body.input issued), saved.vpnAddress ≠ client.vpnAddress ∧
        (saved.fingerprint = client.fingerprint →
          ¬ Registered (R.readClients real) client.vpnAddress)) :
    Both R Good pending (issueReady R real body ready issuance)
      (issueReady R alone body ready issuance) := by
  have hends : ∀ error error' : WebError,
      Both R Good pending (real, failed error) (alone, failed error') := fun _ _ =>
    ⟨h, .inr ⟨trivial, trivial⟩⟩
  cases ready with
  | rejected message => exact hends _ _
  | notOk => exact hends _ _
  | ok =>
      cases issuance with
      | error error =>
          unfold issueReady
          dsimp only
          split <;> split <;> exact hends _ _
      | ok issued =>
          have hapart := hapart issued rfl rfl
          unfold issueReady
          dsimp only
          rcases h.save lawful hapart with
            ⟨saved, real', alone', _, _, hcheck, hreal, halone, hsides⟩ | ⟨_, _, hreal, halone⟩
          · have haddress : saved.vpnAddress = body.vpnAddress := (lawful.check_address hcheck).1
            have hfresh := h.clients.registered_iff fun client hp => (hapart client hp saved hcheck).1
            rw [haddress, ← listed_any, ← listed_any, ← Bool.eq_iff_iff] at hfresh
            rw [hreal, halone, hfresh]
            split
            · exact hends _ _
            · exact ⟨hsides, .inl rfl⟩
          · rw [hreal, halone]
            dsimp only
            split <;> split <;> exact hends _ _

theorem both_rollback (lawful : Lawful R Good check accepts) (h : Sides R Good pending real alone)
    (vpnAddress : Text) (message : String) :
    Both R Good pending (rollback R real vpnAddress message)
      (rollback R alone vpnAddress message) := by
  obtain ⟨error, heq⟩ := rollback_eq (R := R) real vpnAddress message
  obtain ⟨error', heq'⟩ := rollback_eq (R := R) alone vpnAddress message
  rw [heq, heq']
  exact ⟨h.remove lawful vpnAddress, .inr ⟨trivial, trivial⟩⟩

theorem both_settle (lawful : Lawful R Good check accepts) (h : Sides R Good pending real alone)
    (handler : Handler) (reloaded : Reloaded) (issuance : Except WebError Issued)
    (hapart : ∀ body issued, handler = .issueReady body → reloaded = .ok → issuance = .ok issued →
      ∀ client ∈ pending, ∀ saved ∈ check (body.input issued),
        saved.vpnAddress ≠ client.vpnAddress ∧ (saved.fingerprint = client.fingerprint →
          ¬ Registered (R.readClients real) client.vpnAddress)) :
    Both R Good pending (settle R real handler reloaded issuance)
      (settle R alone handler reloaded issuance) := by
  cases handler with
  | issueReady body =>
      exact both_issueReady lawful h reloaded issuance fun issued hready hissued =>
        hapart body issued rfl hready hissued
  | issueReload body issued =>
      cases reloaded with
      | ok => exact .same h _
      | notOk => exact both_rollback lawful h _ _
      | rejected message => exact both_rollback lawful h _ _
  | deleteReady vpnAddress =>
      cases reloaded with
      | notOk => exact .same h _
      | rejected message => exact .same h _
      | ok =>
          obtain ⟨hreal, hquiet⟩ := deleteReady_ok (R := R) real vpnAddress
          obtain ⟨halone, hquiet'⟩ := deleteReady_ok (R := R) alone vpnAddress
          refine ⟨?_, .inr ⟨hquiet, hquiet'⟩⟩
          have hremove := h.remove lawful vpnAddress
          rwa [← hreal, ← halone] at hremove
  | deleteReload => exact .same h _
  | ended response => exact .same h _

end Steps

/-! ## Runs -/

section Runs

variable {σ : Type} {R : Registry σ} {Good : σ → Prop} {check : SaveInput → Option Client}
  {accepts : Text → Prop} {connected : Connected} {real alone : AppState σ} {own : Nat}
  {event : AppEvent}

/-- The client that an event is about to save. -/
def candidate (check : SaveInput → Option Client) (s : AppState σ) : AppEvent → Option Client
  | .arrives id (.put input) => if (s.handlers id).isNone then check input else none
  | .settles id .ok (.ok issued) =>
      match s.handlers id with
      | some (.issueReady body) => check (body.input issued)
      | _ => none
  | _ => none

/-- While the handler `own` waits with a client saved, the event saves no other for
its address; nor one with its fingerprint, as long as it is there. -/
def Apart (R : Registry σ) (check : SaveInput → Option Client) (own : Nat) (s : AppState σ)
    (event : AppEvent) : Prop :=
  ∀ client ∈ pendingOf check (s.handlers own), ∀ saved ∈ candidate check s event,
    saved.vpnAddress ≠ client.vpnAddress ∧ (saved.fingerprint = client.fingerprint →
      ¬ Registered (R.readClients s.registry) client.vpnAddress)

/-- A step of a run in which `own` is an issue request. -/
def Allowed (R : Registry σ) (check : SaveInput → Option Client) (own : Nat) (s : AppState σ)
    (event : AppEvent) : Prop :=
  (∀ request, event = .arrives own request → ∃ body, request = .issue body) ∧
    (event.id ≠ own → Apart R check own s event)

/-- The issue request has been answered with a file. -/
def Succeeded (own : Nat) (s : AppState σ) : Prop :=
  ∃ response, s.handlers own = some (.ended response) ∧ response.isError = false

/-- The two runs, as long as the handler `own` has not succeeded. -/
structure Follows (R : Registry σ) (Good : σ → Prop) (check : SaveInput → Option Client)
    (own : Nat) (real alone : AppState σ) : Prop where
  issuing : Issuing check (real.handlers own)
  sides : Sides R Good (pendingOf check (real.handlers own)) real.registry alone.registry
  others : ∀ id, id ≠ own → (real.handlers id = none ∧ alone.handlers id = none) ∨
    ∃ handler handler', real.handlers id = some handler ∧ alone.handlers id = some handler' ∧
      Alike handler handler'

theorem AppState.set_handlers_self (s : AppState σ) (id : Nat) (result : σ × Handler) :
    (s.set id result).handlers id = some result.2 := by
  show Function.update s.handlers id (some result.2) id = some result.2
  exact Function.update_self ..

theorem AppState.set_handlers_of_ne (s : AppState σ) {id other : Nat} (result : σ × Handler) :
    other ≠ id → (s.set id result).handlers other = s.handlers other := by
  intro h
  show Function.update s.handlers id (some result.2) other = s.handlers other
  exact Function.update_of_ne h ..

/-! An event is one of a request that has arrived, or not. -/

theorem handle_arrives {s : AppState σ} {id : Nat} (h : s.handlers id = none) (request : Request) :
    handle R connected s (.arrives id request) =
      s.set id (arrive R connected s.registry request) := by
  rw [handle, h]

theorem handle_arrived {s : AppState σ} {id : Nat} {handler : Handler}
    (h : s.handlers id = some handler) (request : Request) :
    handle R connected s (.arrives id request) = s := by
  rw [handle, h]

theorem handle_settles {s : AppState σ} {id : Nat} {handler : Handler}
    (h : s.handlers id = some handler) (reloaded : Reloaded) (issuance : Except WebError Issued) :
    handle R connected s (.settles id reloaded issuance) =
      s.set id (settle R s.registry handler reloaded issuance) := by
  rw [handle, h]

theorem handle_unknown {s : AppState σ} {id : Nat} (h : s.handlers id = none)
    (reloaded : Reloaded) (issuance : Except WebError Issued) :
    handle R connected s (.settles id reloaded issuance) = s := by
  rw [handle, h]

theorem succeeded_handle (h : Succeeded own real) (event : AppEvent) :
    Succeeded own (handle R connected real event) := by
  obtain ⟨response, hended, hok⟩ := h
  cases event with
  | arrives id request =>
      cases hid : real.handlers id with
      | none =>
          have hne : own ≠ id := by
            rintro rfl
            rw [hid] at hended
            cases hended
          rw [handle_arrives hid]
          exact ⟨response, (real.set_handlers_of_ne _ hne).trans hended, hok⟩
      | some handler =>
          rw [handle_arrived hid]
          exact ⟨response, hended, hok⟩
  | settles id reloaded issuance =>
      cases hid : real.handlers id with
      | none =>
          rw [handle_unknown hid]
          exact ⟨response, hended, hok⟩
      | some handler =>
          rw [handle_settles hid]
          by_cases hne : own = id
          · subst hne
            obtain rfl := Option.some.inj (hid.symm.trans hended)
            exact ⟨response, real.set_handlers_self own _, hok⟩
          · exact ⟨response, (real.set_handlers_of_ne _ hne).trans hended, hok⟩

/-- A part of the handler that is compared. -/
theorem Follows.set_own (h : Follows R Good check own real alone) {result : σ × Handler}
    (hissuing : Issuing check (some result.2))
    (hsides : Sides R Good (pendingOf check (some result.2)) result.1 alone.registry) :
    Follows R Good check own (real.set own result) alone := by
  refine ⟨?_, ?_, fun id hid => ?_⟩
  · rw [AppState.set_handlers_self]
    exact hissuing
  · rw [AppState.set_handlers_self]
    exact hsides
  · rw [AppState.set_handlers_of_ne _ _ hid]
    exact h.others id hid

theorem follows_of_own (lawful : Lawful R Good check accepts)
    (h : Follows R Good check own real alone) (hown : event.id = own)
    (hissue : ∀ request, event = .arrives own request → ∃ body, request = .issue body) :
    Succeeded own (handle R connected real event) ∨
      Follows R Good check own (handle R connected real event) alone := by
  have hissuing := h.issuing
  have hsides := h.sides
  cases event with
  | arrives id request =>
      obtain rfl : id = own := hown
      cases hid : real.handlers id with
      | some handler =>
          rw [handle_arrived hid]
          exact .inr h
      | none =>
          rw [handle_arrives hid]
          rw [hid] at hsides
          obtain ⟨body, rfl⟩ := hissue request rfl
          rw [arrive]
          split
          · exact .inr (h.set_own (.ready body) hsides)
          · exact .inr (h.set_own (.failed _ rfl) hsides)
  | settles id reloaded issuance =>
      obtain rfl : id = own := hown
      generalize hhandler : real.handlers id = handler at hissuing hsides
      cases hissuing with
      | absent =>
          rw [handle_unknown hhandler]
          exact .inr h
      | ready body =>
          rw [handle_settles hhandler]
          have hready := issueReady_own lawful hsides body reloaded issuance
          exact .inr (h.set_own hready.1 hready.2)
      | reload body issued client hcheck =>
          change Sides R Good (check (body.input issued)) _ _ at hsides
          rw [hcheck] at hsides
          rw [handle_settles hhandler]
          rcases issueReload_own lawful hcheck hsides reloaded with
            ⟨response, heq, hok⟩ | ⟨hissuing, hsides⟩
          · refine .inl ⟨response, (real.set_handlers_self id _).trans ?_, hok⟩
            exact congrArg some heq
          · exact .inr (h.set_own hissuing hsides)
      | failed response hfailed =>
          rw [handle_settles hhandler]
          exact .inr (h.set_own (.failed response hfailed) hsides)

/-- A part of another handler. -/
theorem Follows.set_other (h : Follows R Good check own real alone) {id : Nat} (hid : id ≠ own)
    {result result' : σ × Handler}
    (hboth : Both R Good (pendingOf check (real.handlers own)) result result') :
    Follows R Good check own (real.set id result) (alone.set id result') := by
  refine ⟨?_, ?_, fun other hother => ?_⟩
  · rw [AppState.set_handlers_of_ne _ _ hid.symm]
    exact h.issuing
  · rw [AppState.set_handlers_of_ne _ _ hid.symm]
    exact hboth.sides
  · by_cases heq : other = id
    · subst heq
      exact .inr ⟨_, _, real.set_handlers_self other _, alone.set_handlers_self other _,
        hboth.handlers⟩
    · rw [AppState.set_handlers_of_ne _ _ heq, AppState.set_handlers_of_ne _ _ heq]
      exact h.others other hother

/-- A handler with no more to do leaves the registry alone. -/
theorem settle_quiet {handler : Handler} (h : Quiet handler) (registry : σ) (reloaded : Reloaded)
    (issuance : Except WebError Issued) :
    (settle R registry handler reloaded issuance).1 = registry ∧
      Quiet (settle R registry handler reloaded issuance).2 := by
  cases handler with
  | issueReady | issueReload | deleteReady => exact h.elim
  | deleteReload =>
      refine ⟨rfl, ?_⟩
      cases reloaded <;> exact trivial
  | ended response => exact ⟨rfl, trivial⟩

theorem follows_of_other (lawful : Lawful R Good check accepts)
    (h : Follows R Good check own real alone) (hother : event.id ≠ own)
    (hapart : Apart R check own real event) :
    Follows R Good check own (handle R connected real event)
      (handle R connected alone event) := by
  cases event with
  | arrives id request =>
      have hid : id ≠ own := hother
      rcases h.others id hid with ⟨hreal, halone⟩ | ⟨handler, handler', hreal, halone, -⟩
      · rw [handle_arrives hreal, handle_arrives halone]
        refine h.set_other hid ?_
        cases request with
        | issue body =>
            rw [arrive, arrive]
            split
            · exact .same h.sides _
            · exact .same h.sides _
        | delete vpnAddress =>
            rw [arrive, arrive]
            split
            · exact .same h.sides _
            · exact .same h.sides _
        | put input =>
            rw [arrive, arrive]
            split
            · refine both_put lawful h.sides fun client hclient saved hsaved => ?_
              refine hapart client hclient saved ?_
              rw [candidate, hreal]
              exact hsaved
            · exact .same h.sides _
      · rw [handle_arrived hreal, handle_arrived halone]
        exact h
  | settles id reloaded issuance =>
      have hid : id ≠ own := hother
      rcases h.others id hid with ⟨hreal, halone⟩ | ⟨handler, handler', hreal, halone, halike⟩
      · rw [handle_unknown hreal, handle_unknown halone]
        exact h
      · rw [handle_settles hreal, handle_settles halone]
        refine h.set_other hid ?_
        rcases halike with rfl | ⟨hquiet, hquiet'⟩
        · refine both_settle lawful h.sides handler reloaded issuance ?_
          rintro body issued rfl rfl rfl client hclient saved hsaved
          refine hapart client hclient saved ?_
          rw [candidate, hreal]
          exact hsaved
        · obtain ⟨hregistry, hstill⟩ := settle_quiet (R := R) hquiet real.registry reloaded issuance
          obtain ⟨hregistry', hstill'⟩ :=
            settle_quiet (R := R) hquiet' alone.registry reloaded issuance
          refine ⟨?_, .inr ⟨hstill, hstill'⟩⟩
          rw [hregistry, hregistry']
          exact h.sides

/-- **Rollback.**  An issue request that has ended in an error leaves the registry
as the other requests alone would have, in every run in which they keep apart from
the client that it had saved. -/
theorem rollback_own (lawful : Lawful R Good check accepts) {registry : σ} (hgood : Good registry)
    {events : List AppEvent} {response : Response}
    (hissue : ∀ request, .arrives own request ∈ events → ∃ body, request = .issue body)
    (hapart : ∀ before event after, events = before ++ event :: after → event.id ≠ own →
      Apart R check own (serve R connected (.start registry) before) event)
    (hended : (serve R connected (.start registry) events).handlers own = some (.ended response))
    (herror : response.isError = true) :
    (R.readClients (serve R connected (.start registry) events).registry).Perm
      (R.readClients (serve R connected (.start registry)
        (events.filter fun event => event.id ≠ own)).registry) := by
  have hstart : Follows R Good check own (.start registry) (.start registry) :=
    ⟨.absent, ⟨hgood, hgood, List.Perm.refl _⟩, fun _ _ => .inl ⟨rfl, rfl⟩⟩
  have hallowed : ∀ before event after, events = before ++ event :: after →
      Allowed R check own (serve R connected (.start registry) before) event := by
    intro before event after heq
    refine ⟨?_, hapart before event after heq⟩
    rintro request rfl
    refine hissue request ?_
    rw [heq]
    exact List.mem_append_right _ List.mem_cons_self
  have hrelated : Succeeded own (serve R connected (.start registry) events) ∨
      Follows R Good check own (serve R connected (.start registry) events)
        (serve R connected (.start registry) (events.filter fun event => !decide (event.id = own))) := by
    refine @Machine.foldl_filter_related _ _ (handle R connected) (fun event => decide (event.id = own))
      (fun real alone => Succeeded own real ∨ Follows R Good check own real alone)
      (Allowed R check own) (fun hid hallowed h => ?_) (fun hid hallowed h => ?_) events _ _
      (.inr hstart) hallowed
    · rcases h with h | h
      · exact .inl (succeeded_handle h _)
      · exact follows_of_own lawful h (of_decide_eq_true hid) hallowed.1
    · rcases h with h | h
      · exact .inl (succeeded_handle h _)
      · exact .inr (follows_of_other lawful h (of_decide_eq_false hid)
          (hallowed.2 (of_decide_eq_false hid)))
  rcases hrelated with ⟨other, hother, hok⟩ | hfollows
  · obtain rfl := Handler.ended.inj (Option.some.inj (hended.symm.trans hother))
    rw [herror] at hok
    cases hok
  · have hclients := hfollows.sides.clients
    rw [hended] at hclients
    simp only [decide_not]
    exact hclients

end Runs

end Web

end AutobricksVpn
