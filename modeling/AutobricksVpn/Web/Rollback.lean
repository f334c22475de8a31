/-
# `AutobricksVpn.Web.Rollback` — the rollback of an issuance, over the file

`ServerConfig` is a registry as the comparison of runs needs it, as long as its
clients are read back from their lines (`serverConfig_lawful`): the settings stay
what they are, and every write makes the clients what it is to make them.

So an issue request that fails takes back its own client and no other, if the
others keep apart from it while it waits (`issue_rolls_back`).  A `PUT` of its
address in that time is undone with it (`rollback_removes_put`).
-/
import AutobricksVpn.Web.ClientEdits
import AutobricksVpn.Web.Issuance
import AutobricksVpn.Web.Reread

namespace AutobricksVpn

namespace Web

open JsText (Runtime)

/-! ## The file as a registry -/

/-- A client that stays what it is when the file is written. -/
structure ReadsBack (js : Runtime) (client : Client) : Prop where
  noHeader : isHeaderLine client.line = false
  same : readBack js client = some client

structure Steady (js : Runtime) (result : Except WebError Settings) (text : Text) : Prop where
  settings : readServerSettings js text = result
  clients : ∀ client ∈ readClients js text, ReadsBack js client

/-- The client there will be of an input, whatever the other clients are. -/
def savedClient (js : Runtime) (result : Except WebError Settings) (input : SaveInput) :
    Option Client :=
  match result with
  | .error _ => none
  | .ok settings => (checkClient js settings [] input).toOption.map Client.stored

def Removable (js : Runtime) (result : Except WebError Settings) (vpnAddress : Text) : Prop :=
  ∃ settings, result = .ok settings ∧
    validateClientAddress js vpnAddress settings = .ok vpnAddress

section Lawful

variable {js : Runtime} {result : Except WebError Settings} {text : Text} {input : SaveInput}
  {client : Client} {clients : List Client} {vpnAddress : Text}

theorem savedClient_some (h : savedClient js result input = some client) :
    ∃ settings, result = .ok settings ∧
      checkClient js settings [] input = .ok (input.client js) ∧ Checked js input ∧
      client = (input.client js).stored ∧
      validateClientAddress js input.vpnAddress settings = .ok input.vpnAddress := by
  unfold savedClient at h
  cases result with
  | error error => cases h
  | ok settings =>
      obtain ⟨checked, hchecked, rfl⟩ := Option.map_eq_some_iff.mp h
      cases hcheck : checkClient js settings [] input with
      | error error =>
          rw [hcheck] at hchecked
          cases hchecked
      | ok client =>
          obtain ⟨rfl, hvalid, haddress⟩ := checkClient_ok hcheck
          rw [hcheck] at hchecked
          obtain rfl := Option.some.inj hchecked
          exact ⟨settings, rfl, hcheck, hvalid, rfl, haddress⟩

theorem readsBack_stored (h : Checked js input) : ReadsBack js (input.client js).stored := by
  refine ⟨?_, ?_⟩
  · rw [stored_line]
    exact (writable_client h).noHeader
  · rw [readBack, stored_line]
    exact readBack_client h

/-- The clients of the file are written as they are. -/
theorem filterMap_readBack (h : ∀ client ∈ clients, ReadsBack js client) :
    clients.filterMap (readBack js) = clients := by
  induction clients with
  | nil => rfl
  | cons client clients ih =>
      obtain ⟨hclient, hclients⟩ := List.forall_mem_cons.mp h
      rw [List.filterMap_cons_some hclient.same, ih hclients]

theorem writable_of_steady (h : Steady js result text) :
    ∀ client ∈ readClients js text, Writable client := fun client hclient =>
  ⟨newline_not_mem_readClients hclient, (h.clients client hclient).noHeader⟩

/-- What a write leaves, of clients that are read back. -/
theorem steady_written (h : Steady js result text)
    (hwritable : ∀ client ∈ clients, Writable client)
    {stored : List Client} (hstored : clients.filterMap (readBack js) = stored)
    (hback : ∀ client ∈ stored, ReadsBack js client) :
    Steady js result (writeClients js text clients) ∧
      (readClients js (writeClients js text clients)).Perm stored := by
  have hperm : (readClients js (writeClients js text clients)).Perm
      (clients.filterMap (readBack js)) := readClients_written hwritable
  rw [hstored] at hperm
  refine ⟨⟨(readServerSettings_written hwritable).trans h.settings, ?_⟩, hperm⟩
  intro client hclient
  exact hback client (hperm.mem_iff.mp hclient)

theorem saveClient_free (h : Steady js result text)
    (hcheck : savedClient js result input = some client)
    (hfree : Free (readClients js text) client) :
    ∃ text' listed, saveClient js text input = .ok (text', listed) ∧ Steady js result text' ∧
      (readClients js text').Perm
        (without (readClients js text) client.vpnAddress ++ [client]) := by
  obtain ⟨settings, rfl, hchecks, hvalid, rfl, -⟩ := savedClient_some hcheck
  rw [stored_vpnAddress]
  have hfree' : ∀ other ∈ readClients js text, other.fingerprint = input.digits js →
      other.vpnAddress = input.vpnAddress := by
    intro other hother hsame
    have haddress := hfree other hother (by rw [stored_fingerprint]; exact hsame)
    rwa [stored_vpnAddress] at haddress
  have hsaves : saveClient js text input = .ok (writeClients js text
      (without (readClients js text) input.vpnAddress ++ [input.client js]),
      (input.client js).listed) := by
    unfold saveClient
    rw [h.settings]
    change (checkClient js settings (readClients js text) input >>= _) = _
    rw [checkClient_free hfree', hchecks]
    rfl
  have hkept : ∀ other ∈ without (readClients js text) input.vpnAddress,
      other ∈ readClients js text := fun other hother => (mem_without.mp hother).1
  have hstored : (without (readClients js text) input.vpnAddress ++ [input.client js]).filterMap
      (readBack js) =
      without (readClients js text) input.vpnAddress ++ [(input.client js).stored] := by
    rw [List.filterMap_append,
      filterMap_readBack fun other hother => h.clients other (hkept other hother),
      List.filterMap_cons_some (readBack_client hvalid), List.filterMap_nil]
  have hwritable : ∀ other ∈ without (readClients js text) input.vpnAddress ++ [input.client js],
      Writable other := by
    intro other hother
    rcases List.mem_append.mp hother with hother | hother
    · exact writable_of_steady h other (hkept other hother)
    · exact List.mem_singleton.mp hother ▸ writable_client hvalid
  have hback : ∀ other ∈ without (readClients js text) input.vpnAddress ++
      [(input.client js).stored], ReadsBack js other := by
    intro other hother
    rcases List.mem_append.mp hother with hother | hother
    · exact h.clients other (hkept other hother)
    · exact List.mem_singleton.mp hother ▸ readsBack_stored hvalid
  obtain ⟨hsteady, hperm⟩ := steady_written h hwritable hstored hback
  exact ⟨_, _, hsaves, hsteady, hperm⟩

theorem saveClient_refused (h : Steady js result text)
    (hrefused : ∀ client, savedClient js result input = some client →
      ¬ Free (readClients js text) client) :
    ∃ error, saveClient js text input = .error error := by
  cases hsave : saveClient js text input with
  | error error => exact ⟨error, rfl⟩
  | ok saved =>
      exfalso
      obtain ⟨settings, hsettings, hchecks, -, -, -⟩ := saveClient_ok hsave
      obtain rfl := h.settings.symm.trans hsettings
      by_cases hfree : ∀ other ∈ readClients js text, other.fingerprint = input.digits js →
          other.vpnAddress = input.vpnAddress
      · rw [checkClient_free hfree] at hchecks
        refine hrefused (input.client js).stored ?_ fun other hother hsame => ?_
        · rw [savedClient, hchecks]
          rfl
        · rw [stored_vpnAddress]
          rw [stored_fingerprint] at hsame
          exact hfree other hother hsame
      · push Not at hfree
        obtain ⟨error, herror⟩ : ∃ error,
            checkClient js settings (readClients js text) input = .error error :=
          checkClient_taken hfree
        rw [herror] at hchecks
        cases hchecks

/-- The length tells whether there is a client to remove. -/
theorem length_without_eq_iff :
    (without clients vpnAddress).length = clients.length ↔ ¬ Registered clients vpnAddress := by
  constructor
  · rintro hlength ⟨client, hclient, heq⟩
    have hall := List.length_filter_eq_length_iff.mp hlength client hclient
    exact of_decide_eq_true hall heq
  · intro h
    rw [without_eq_self h]

/-- `removeClient`, where the settings and the address are in order. -/
theorem removeClient_eq {settings : Settings}
    (hsettings : readServerSettings js text = .ok settings)
    (haddress : validateClientAddress js vpnAddress settings = .ok vpnAddress) :
    removeClient js text vpnAddress =
      if (without (readClients js text) vpnAddress).length = (readClients js text).length then
        .error ⟨"client binding was not found.", some 404, some "client_not_found"⟩
      else .ok (writeClients js text (without (readClients js text) vpnAddress)) := by
  unfold removeClient
  rw [hsettings]
  change (validateClientAddress js vpnAddress settings >>= _) = _
  rw [haddress]
  rfl

theorem removeClient_found (h : Steady js result text) (hremovable : Removable js result vpnAddress)
    (hfound : Registered (readClients js text) vpnAddress) :
    ∃ text', removeClient js text vpnAddress = .ok text' ∧ Steady js result text' ∧
      (readClients js text').Perm (without (readClients js text) vpnAddress) := by
  obtain ⟨settings, rfl, haddress⟩ := hremovable
  have hkept : ∀ other ∈ without (readClients js text) vpnAddress, other ∈ readClients js text :=
    fun other hother => (mem_without.mp hother).1
  have hback : ∀ other ∈ without (readClients js text) vpnAddress, ReadsBack js other :=
    fun other hother => h.clients other (hkept other hother)
  obtain ⟨hsteady, hperm⟩ := steady_written h
    (fun other hother => writable_of_steady h other (hkept other hother))
    (filterMap_readBack hback) hback
  refine ⟨_, ?_, hsteady, hperm⟩
  rw [removeClient_eq h.settings haddress, if_neg fun hlength =>
    length_without_eq_iff.mp hlength hfound]

theorem removeClient_refused (h : Steady js result text)
    (hrefused : Removable js result vpnAddress → ¬ Registered (readClients js text) vpnAddress) :
    ∃ error, removeClient js text vpnAddress = .error error := by
  cases hsettings : readServerSettings js text with
  | error error =>
      refine ⟨error, ?_⟩
      unfold removeClient
      rw [hsettings]
      rfl
  | ok settings =>
      cases haddress : validateClientAddress js vpnAddress settings with
      | error error =>
          refine ⟨error, ?_⟩
          unfold removeClient
          rw [hsettings]
          change (validateClientAddress js vpnAddress settings >>= _) = _
          rw [haddress]
          rfl
      | ok address =>
          obtain ⟨rfl, -, -⟩ := validateClientAddress_some haddress
          have habsent := hrefused ⟨settings, h.settings.symm.trans hsettings, haddress⟩
          rw [removeClient_eq hsettings haddress, if_pos (length_without_eq_iff.mpr habsent)]
          exact ⟨_, rfl⟩

theorem serverConfig_lawful (js : Runtime) (result : Except WebError Settings) :
    Lawful (serverConfig js) (Steady js result) (savedClient js result) (Removable js result) where
  check_address := by
    intro input client hcheck
    obtain ⟨settings, hresult, -, -, rfl, haddress⟩ := savedClient_some hcheck
    exact ⟨stored_vpnAddress _, settings, hresult, haddress⟩
  save_ok := saveClient_free
  save_error := saveClient_refused
  remove_ok := removeClient_found
  remove_error := removeClient_refused

end Lawful

/-! ## Runs -/

/-- **Rollback.**  In a run over a file whose clients are read back from their
lines, an issue request that ends in an error leaves the clients that the other
requests alone would have left, if they keep apart from its client. -/
theorem issue_rolls_back (js : Runtime) (text : Text) (connected : Connected)
    (events : List AppEvent) (own : Nat) (response : Response)
    (hreads : ∀ client ∈ readClients js text, ReadsBack js client)
    (hissue : ∀ request, .arrives own request ∈ events → ∃ body, request = .issue body)
    (hapart : ∀ before event after, events = before ++ event :: after → event.id ≠ own →
      Apart (serverConfig js) (savedClient js (readServerSettings js text)) own
        (serve (serverConfig js) connected (.start text) before) event)
    (hended : (serve (serverConfig js) connected (.start text) events).handlers own =
      some (.ended response))
    (herror : response.isError = true) :
    (readClients js (serve (serverConfig js) connected (.start text) events).registry).Perm
      (readClients js (serve (serverConfig js) connected (.start text)
        (events.filter fun event => event.id ≠ own)).registry) :=
  rollback_own (serverConfig_lawful js (readServerSettings js text)) ⟨rfl, hreads⟩ hissue hapart
    hended herror

namespace Sample

def connected : Connected := ⟨true, true, true⟩

def body : IssueBody := ⟨"10.8.1.3".toList, none, none⟩

def issued : Issued := ⟨List.replicate 64 'b', "10-8-1-3.vpn", ""⟩

/-- A `PUT` of an address, with a fingerprint of its own. -/
def replacement (vpnAddress : Text) : SaveInput :=
  ⟨vpnAddress, some (List.replicate 64 'c'), none, none⟩

/-- The client of the address. -/
def registered (digit : Char) : Client :=
  ⟨"10.8.1.3".toList, List.replicate 64 digit, none, none⟩

/-- The server refuses to reload, and a `PUT` comes before it does. -/
def refused (vpnAddress : Text) : List AppEvent :=
  [.arrives 0 (.issue body), .settles 0 .ok (.ok issued),
    .arrives 1 (.put (replacement vpnAddress)), .settles 0 .notOk (.ok issued)]

def run (events : List AppEvent) : AppState Text :=
  serve (serverConfig runtime) connected (.start commented) events

/-- The clients after a run. -/
def clientsAfter (events : List AppEvent) : List Client :=
  readClients runtime (run events).registry

/-- The issue request waits for the server. -/
def waiting (text : Text) : AppState Text :=
  ((AppState.start commented).set 0 (commented, .issueReady body)).set 0
    (text, .issueReload body issued)

end Sample

theorem steady_commented :
    Steady Sample.runtime (readServerSettings Sample.runtime Sample.commented)
      Sample.commented := by
  have hall : (readClients Sample.runtime Sample.commented).all (fun client =>
      !isHeaderLine client.line && (readBack Sample.runtime client == some client)) = true := by
    decide +kernel
  refine ⟨rfl, fun client hclient => ?_⟩
  have hclient := List.all_eq_true.mp hall client hclient
  rw [Bool.and_eq_true, Bool.not_eq_true', beq_iff_eq] at hclient
  exact ⟨hclient.1, hclient.2⟩

theorem free_commented {client : Client}
    (h : (readClients Sample.runtime Sample.commented).all
      (fun other => other.fingerprint != client.fingerprint) = true) :
    Free (readClients Sample.runtime Sample.commented) client := by
  intro other hother hsame
  exact absurd hsame (bne_iff_ne.mp (List.all_eq_true.mp h other hother))

theorem serve_refused : ∃ text' listed,
    saveClient Sample.runtime Sample.commented Sample.input = .ok (text', listed) ∧
      Sample.run [.arrives 0 (.issue Sample.body), .settles 0 .ok (.ok Sample.issued)] =
        Sample.waiting text' ∧
      ∀ vpnAddress, Sample.run (Sample.refused vpnAddress) =
        ((Sample.waiting text').set 1 (putClient (serverConfig Sample.runtime) text'
          (Sample.replacement vpnAddress))).set 0
          (rollback (serverConfig Sample.runtime) (putClient (serverConfig Sample.runtime) text'
            (Sample.replacement vpnAddress)).1 Sample.body.vpnAddress
            "VPN 서버가 설정 갱신을 거부했습니다.") := by
  have hsaves : (saveClient Sample.runtime Sample.commented Sample.input).isOk = true := by
    decide +kernel
  obtain ⟨⟨text', listed⟩, hsave⟩ := exists_of_isOk hsaves
  have hfresh : (((serverConfig Sample.runtime).listClients Sample.commented).any fun client =>
      client.vpnAddress == Sample.body.vpnAddress) = false := by decide +kernel
  have hready : issueReady (serverConfig Sample.runtime) Sample.commented Sample.body .ok
      (.ok Sample.issued) = (text', .issueReload Sample.body Sample.issued) := by
    have hsave : (serverConfig Sample.runtime).saveClient Sample.commented
        (Sample.body.input Sample.issued) = .ok (text', listed) := hsave
    rw [issueReady, hfresh, if_neg (by decide), hsave]
  have hwaiting : Sample.run [.arrives 0 (.issue Sample.body), .settles 0 .ok (.ok Sample.issued)] =
      Sample.waiting text' := by
    rw [Sample.run, serve, List.foldl_cons, List.foldl_cons, List.foldl_nil, handle_arrives rfl,
      handle_settles (AppState.set_handlers_self ..)]
    exact congrArg (AppState.set _ 0) hready
  refine ⟨text', listed, hsave, hwaiting, fun vpnAddress => ?_⟩
  have hown : ((Sample.waiting text').set 1 (putClient (serverConfig Sample.runtime) text'
      (Sample.replacement vpnAddress))).handlers 0 =
        some (.issueReload Sample.body Sample.issued) :=
    (AppState.set_handlers_of_ne _ _ (by decide)).trans (AppState.set_handlers_self ..)
  rw [Sample.run, serve, List.foldl_cons, List.foldl_cons, List.foldl_nil] at hwaiting
  rw [Sample.run, serve, Sample.refused, List.foldl_cons, List.foldl_cons, List.foldl_cons,
    List.foldl_cons, List.foldl_nil, hwaiting, handle_arrives rfl]
  exact handle_settles hown _ _

/-- It is the third event. -/
theorem other_event {vpnAddress : Text} {before after : List AppEvent} {event : AppEvent}
    (h : Sample.refused vpnAddress = before ++ event :: after) (hother : event.id ≠ 0) :
    before = [.arrives 0 (.issue Sample.body), .settles 0 .ok (.ok Sample.issued)] ∧
      event = .arrives 1 (.put (Sample.replacement vpnAddress)) := by
  unfold Sample.refused at h
  rcases before with _ | ⟨first, _ | ⟨second, _ | ⟨third, _ | ⟨fourth, before⟩⟩⟩⟩ <;>
    simp only [List.nil_append, List.cons_append, List.cons.injEq] at h
  · obtain ⟨rfl, -⟩ := h
    exact absurd rfl hother
  · obtain ⟨-, rfl, -⟩ := h
    exact absurd rfl hother
  · obtain ⟨rfl, rfl, rfl, -⟩ := h
    exact ⟨rfl, rfl⟩
  · obtain ⟨-, -, -, rfl, -⟩ := h
    exact absurd rfl hother
  · obtain ⟨-, -, -, -, h⟩ := h
    cases List.append_ne_nil_of_right_ne_nil before (List.cons_ne_nil event after) h.symm

theorem putClient_saved {σ : Type} {R : Registry σ} {registry registry' : σ} {input : SaveInput}
    {listed : ListedClient} (h : R.saveClient registry input = .ok (registry', listed)) :
    (putClient R registry input).1 = registry' := by
  rw [putClient, h]

/-- The run of the other request. -/
theorem serve_put (vpnAddress : Text) :
    (Sample.run ((Sample.refused vpnAddress).filter fun event => event.id ≠ 0)).registry =
      (putClient (serverConfig Sample.runtime) Sample.commented
        (Sample.replacement vpnAddress)).1 :=
  rfl

theorem issue_rolls_back_refused : ∃ response,
    (Sample.run (Sample.refused "10.8.1.4".toList)).handlers 0 = some (.ended response) ∧
      response.isError = true ∧
      (Sample.clientsAfter (Sample.refused "10.8.1.4".toList)).Perm
        (Sample.clientsAfter
          ((Sample.refused "10.8.1.4".toList).filter fun event => event.id ≠ 0)) := by
  obtain ⟨text', listed, hsave, hwaiting, hserve⟩ := serve_refused
  obtain ⟨error, hrollback⟩ := @rollback_eq _ (serverConfig Sample.runtime)
    (putClient (serverConfig Sample.runtime) text' (Sample.replacement "10.8.1.4".toList)).1
    Sample.body.vpnAddress "VPN 서버가 설정 갱신을 거부했습니다."
  have hended : (Sample.run (Sample.refused "10.8.1.4".toList)).handlers 0 =
      some (failed error) := by
    rw [hserve, AppState.set_handlers_self, hrollback]
  refine ⟨_, hended, isError_errorResponse error, ?_⟩
  refine issue_rolls_back _ _ _ _ 0 _ steady_commented.clients ?_ ?_ hended
    (isError_errorResponse error)
  · intro request hrequest
    simp only [Sample.refused, List.mem_cons, AppEvent.arrives.injEq, reduceCtorEq,
      List.not_mem_nil, false_or, or_false] at hrequest
    rcases hrequest with ⟨-, rfl⟩ | ⟨hzero, -⟩
    · exact ⟨_, rfl⟩
    · exact absurd hzero (by decide)
  · intro before event after hsplit hother
    obtain ⟨rfl, rfl⟩ := other_event hsplit hother
    have hwaiting : serve (serverConfig Sample.runtime) Sample.connected
        (.start Sample.commented) _ = Sample.waiting text' := hwaiting
    rw [hwaiting]
    intro client hclient saved hsaved
    have hclient : savedClient Sample.runtime (readServerSettings Sample.runtime Sample.commented)
      Sample.input = some client := hclient
    have hsaved : savedClient Sample.runtime (readServerSettings Sample.runtime Sample.commented)
      (Sample.replacement "10.8.1.4".toList) = some saved := hsaved
    obtain ⟨-, -, -, -, rfl, -⟩ := savedClient_some hclient
    obtain ⟨-, -, -, -, rfl, -⟩ := savedClient_some hsaved
    rw [stored_vpnAddress, stored_vpnAddress, stored_fingerprint, stored_fingerprint]
    exact ⟨by decide, fun heq => absurd heq (by decide +kernel)⟩

/-- A `PUT` of the address that comes while the issue request waits is undone. -/
theorem rollback_removes_put : ∃ response,
    (Sample.run (Sample.refused "10.8.1.3".toList)).handlers 0 = some (.ended response) ∧
      response.isError = true ∧
      ¬ (Sample.clientsAfter (Sample.refused "10.8.1.3".toList)).Perm
        (Sample.clientsAfter
          ((Sample.refused "10.8.1.3".toList).filter fun event => event.id ≠ 0)) ∧
      ¬ Registered (Sample.clientsAfter (Sample.refused "10.8.1.3".toList)) "10.8.1.3".toList := by
  obtain ⟨text', listed, hsave, -, hserve⟩ := serve_refused
  have hlawful := serverConfig_lawful Sample.runtime
    (readServerSettings Sample.runtime Sample.commented)
  have hissued : savedClient Sample.runtime (readServerSettings Sample.runtime Sample.commented)
      Sample.input = some (Sample.registered 'b') := by decide +kernel
  have hput : savedClient Sample.runtime (readServerSettings Sample.runtime Sample.commented)
      (Sample.replacement "10.8.1.3".toList) = some (Sample.registered 'c') := by decide +kernel
  -- The issue request saves its client, and the `PUT` another in its place.
  obtain ⟨issuedText, _, hsave', hgood, hperm⟩ :=
    hlawful.save_ok steady_commented hissued (free_commented (by decide +kernel))
  obtain ⟨rfl, -⟩ := Prod.mk.inj (Except.ok.inj (hsave'.symm.trans hsave))
  have hfree : Free (readClients Sample.runtime issuedText) (Sample.registered 'c') := by
    intro other hother hsame
    rcases List.mem_append.mp (hperm.mem_iff.mp hother) with hother | hother
    · exact free_commented (by decide +kernel) other (mem_without.mp hother).1 hsame
    · rw [List.mem_singleton.mp hother]
      rfl
  obtain ⟨putText, _, hputs, hgoodPut, -⟩ := hlawful.save_ok hgood hput hfree
  obtain ⟨aloneText, _, halone, -, hpermAlone⟩ :=
    hlawful.save_ok steady_commented hput (free_commented (by decide +kernel))
  obtain ⟨error, hrollback⟩ := @rollback_eq _ (serverConfig Sample.runtime) putText
    Sample.body.vpnAddress "VPN 서버가 설정 갱신을 거부했습니다."
  have hremoved : ¬ Registered (readClients Sample.runtime
      (removed (serverConfig Sample.runtime) putText "10.8.1.3".toList)) "10.8.1.3".toList := by
    obtain ⟨-, hremoves, -⟩ := removed_spec hlawful hgoodPut (v := "10.8.1.3".toList)
    rintro ⟨client, hclient, heq⟩
    have hclient := (hremoves (hlawful.check_address hissued).2).mem_iff.mp hclient
    exact (mem_without.mp hclient).2 heq
  have hkept : Registered (readClients Sample.runtime aloneText) "10.8.1.3".toList := by
    refine ⟨Sample.registered 'c', hpermAlone.mem_iff.mpr ?_, rfl⟩
    exact List.mem_append_right _ List.mem_cons_self
  rw [Sample.clientsAfter, Sample.clientsAfter, serve_put, putClient_saved halone, hserve,
    putClient_saved hputs, hrollback]
  exact ⟨_, AppState.set_handlers_self .., isError_errorResponse error,
    fun hperm => hremoved ((registered_perm hperm).mpr hkept), hremoved⟩

end Web

end AutobricksVpn
