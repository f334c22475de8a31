/-
# `AutobricksVpn.Server.Replace` — which session of a client survives

A client that authenticates again is to replace its earlier session.  Without a
login this happens in the step that establishes it.  With one, the earlier
sessions stay until the deduplication pass, which keeps the session that stands
last in the list: the position is taken for the order of authentication.

So the newest survives exactly when it stands last (`deduplicate_iff`), which
may fail: a login is accepted wherever its session stands, and `swap_remove`
moves the last session of the list forward.  Where neither happens to two
sessions of one client the newest wins in the whole run (`InOrder`).
-/
import AutobricksVpn.Server.Gate

namespace AutobricksVpn

/-! ## The newest session -/

/-- An authenticated session of the address. -/
def isFor (address : Ipv4Addr) (x : Session) : Bool := x.authenticated && x.address == address

/-- Of the authenticated sessions of the address, the one that authenticated last. -/
def newest (tr : List Event) (address : Ipv4Addr) (sessions : List Session) : Option Session :=
  (authOrder (accessLog tr)).reverse.findSome? fun n =>
    sessions.find? fun x => isFor address x && x.serial == n

/-- The newest session survives, the others of its address are dropped as replaced. -/
structure NewestWins (tr : List Event) (address : Ipv4Addr) (sessions : List Session)
    (r : List Session × List Event) : Prop where
  survivors : r.1.filter (isFor address) = (newest tr address sessions).toList
  replaced : ∀ x ∈ sessions, isFor address x = true → newest tr address sessions ≠ some x →
    .dropped (x.because .replaced) ∈ r.2

/-- The newest session stands last among those of its address. -/
def NewestLast (tr : List Event) (address : Ipv4Addr) (sessions : List Session) : Prop :=
  (sessions.filter (isFor address)).getLast? = newest tr address sessions

section Deduplicate

variable {tr : List Event} {address : Ipv4Addr} {sessions : List Session}

theorem filter_isFor (l : List Session) :
    l.filter (isFor address) = l.filter fun x => authenticatedAddress x == some address := by
  refine List.filter_congr fun x _ => ?_
  cases hx : x.authenticated <;> simp [isFor, authenticatedAddress, hx]

/-- The pass keeps the session that stands last. -/
theorem deduplicate_survivors (address : Ipv4Addr) (sessions : List Session) :
    (deduplicate sessions).1.filter (isFor address) =
      (sessions.filter (isFor address)).getLast?.toList := by
  rw [filter_isFor, filter_isFor]
  exact Vec.keepLast_filter authenticatedAddress address sessions

/-- **Exactly when the newest wins.** -/
theorem deduplicate_iff :
    NewestWins tr address sessions (deduplicate sessions) ↔ NewestLast tr address sessions := by
  constructor
  · intro h
    have heq := (deduplicate_survivors address sessions).symm.trans h.survivors
    unfold NewestLast
    cases hl : (sessions.filter (isFor address)).getLast? <;>
      cases hn : newest tr address sessions <;> simp_all
  · intro h
    have hsurvivors := deduplicate_survivors address sessions
    rw [h] at hsurvivors
    refine ⟨hsurvivors, fun x hx hfor hne => ?_⟩
    -- A session of the address that is not dropped is the survivor.
    have hmem := (Vec.keepLast_perm authenticatedAddress sessions).symm.subset hx
    rcases List.mem_append.mp hmem with hkept | hgone
    · have : x ∈ (newest tr address sessions).toList := by
        rw [← hsurvivors]
        exact List.mem_filter.mpr ⟨hkept, hfor⟩
      exact absurd (Option.mem_toList.mp this) hne
    · exact List.mem_map.mpr ⟨_, List.mem_map.mpr ⟨x, hgone, rfl⟩, rfl⟩

end Deduplicate

/-! ## Orders -/

/-- What comes before `n` in an order without repetition stands on its left. -/
theorem mem_of_pair_sublist {m n : Nat} {pre post : List Nat} :
    [m, n].Sublist (pre ++ n :: post) → (pre ++ n :: post).Nodup → m ∈ pre := by
  intro hsub hnodup
  have hpost : n ∉ post := (List.nodup_cons.mp (List.nodup_append.mp hnodup).2.1).1
  obtain ⟨l₁, l₂, heq, h₁, h₂⟩ := List.sublist_append_iff.mp hsub
  cases l₁ with
  | nil =>
      rw [List.nil_append] at heq
      subst heq
      rcases List.cons_sublist_cons'.mp h₂ with hskip | ⟨-, htail⟩
      · exact absurd (hskip.subset (by simp)) hpost
      · exact absurd (htail.subset (List.mem_singleton_self n)) hpost
  | cons a l =>
      obtain ⟨rfl, -⟩ := List.cons.inj heq
      exact h₁.subset List.mem_cons_self

/-- Of two authenticated entries with one address, the first authenticated first. -/
def Entry.OrderedBy (order : List Nat) (x y : Entry) : Prop :=
  x.authenticated = true → y.authenticated = true → x.address = y.address →
    [x.serial, y.serial].Sublist order

def OrderedBy (order : List Nat) (x y : Session) : Prop := x.entry.OrderedBy order y.entry

/-- Where the list is in order, the newest session stands last. -/
theorem newestLast_of_ordered {tr : List Event} {address : Ipv4Addr} {sessions : List Session} :
    sessions.Pairwise (OrderedBy (authOrder (accessLog tr))) →
    (authOrder (accessLog tr)).Nodup →
    (∀ x ∈ sessions, x.authenticated = true → x.serial ∈ authOrder (accessLog tr)) →
    (sessions.map (·.serial)).Nodup →
    NewestLast tr address sessions := by
  intro hordered hnodup hin hserials
  have hfor : ∀ {x}, x ∈ sessions.filter (isFor address) →
      x ∈ sessions ∧ x.authenticated = true ∧ x.address = address := by
    intro x hx
    obtain ⟨hx, hx'⟩ := List.mem_filter.mp hx
    simp only [isFor, Bool.and_eq_true, beq_iff_eq] at hx'
    exact ⟨hx, hx'⟩
  unfold NewestLast newest
  rcases List.eq_nil_or_concat' (sessions.filter (isFor address)) with hnil | ⟨init, y, hlast⟩
  · rw [hnil, List.getLast?_nil]
    refine (List.findSome?_eq_none_iff.mpr fun n _ => ?_).symm
    refine List.find?_eq_none.mpr fun x hx hx' => ?_
    rw [Bool.and_eq_true] at hx'
    exact List.not_mem_nil (hnil ▸ List.mem_filter.mpr ⟨hx, hx'.1⟩)
  · have hy : y ∈ sessions.filter (isFor address) := by rw [hlast]; simp
    obtain ⟨hmem, hauth, haddr⟩ := hfor hy
    obtain ⟨pre, post, horder⟩ := List.append_of_mem (hin y hmem hauth)
    rw [horder] at hnodup hordered ⊢
    have hpost : y.serial ∉ post := (List.nodup_cons.mp (List.nodup_append.mp hnodup).2.1).1
    -- Whoever authenticated after `y` is not among the sessions of the address.
    have hnone : post.reverse.findSome? (fun n =>
        sessions.find? fun x => isFor address x && x.serial == n) = none := by
      refine List.findSome?_eq_none_iff.mpr fun n hn => ?_
      refine List.find?_eq_none.mpr fun x hx hx' => ?_
      rw [Bool.and_eq_true, beq_iff_eq] at hx'
      obtain ⟨hxfor, rfl⟩ := hx'
      have hn : x.serial ∈ post := List.mem_reverse.mp hn
      have hxmem : x ∈ init ++ [y] := hlast ▸ List.mem_filter.mpr ⟨hx, hxfor⟩
      rcases List.mem_append.mp hxmem with hxinit | hxy
      · have hpair := hordered.filter (isFor address)
        rw [hlast] at hpair
        obtain ⟨-, hxauth, hxaddr⟩ := hfor (List.mem_filter.mpr ⟨hx, hxfor⟩)
        have hbefore := (List.pairwise_append.mp hpair).2.2 x hxinit y (List.mem_singleton_self y)
          hxauth hauth (hxaddr.trans haddr.symm)
        have hpre := mem_of_pair_sublist hbefore hnodup
        exact (List.nodup_append.mp hnodup).2.2 _ hpre _ (List.mem_cons_of_mem _ hn) rfl
      · rw [List.mem_singleton.mp hxy] at hn
        exact hpost hn
    -- And the serial names `y`.
    have hfound : (sessions.find? fun x => isFor address x && x.serial == y.serial) = some y := by
      cases hf : sessions.find? fun x => isFor address x && x.serial == y.serial with
      | none =>
          have := List.find?_eq_none.mp hf y hmem
          simp [isFor, hauth, haddr] at this
      | some x =>
          have hx := List.find?_some hf
          rw [Bool.and_eq_true, beq_iff_eq] at hx
          rw [List.inj_on_of_nodup_map hserials (List.mem_of_find?_eq_some hf) hmem hx.2]
    rw [hlast, List.getLast?_concat, List.reverse_append, List.reverse_cons, List.append_assoc,
      List.findSome?_append, hnone, Option.none_or, List.singleton_append, List.findSome?_cons, hfound]

/-! ## The drain pass -/

/-- What a drained session keeps, and whether it is authenticated now. -/
structure Drains (accepts : Bool) (x : Session) (r : Drained) : Prop where
  serial : r.session.serial = x.serial
  address : r.session.address = x.address
  authenticated : r.session.authenticated = (x.authenticated || accepts)
  order : authOrder (accessLog r.events) = if accepts then [x.serial] else []

theorem drainSession_drains (cfg : ServerConfig) (rules : Rules) (now : Instant) (call : DrainCall)
    (x : Session) : Drains (acceptsLogin rules call x) x (drainSession cfg rules now call x) := by
  have heff := drainSession_effect cfg rules now call x
  generalize drainSession cfg rules now call x = r at heff
  unfold acceptsLogin
  generalize messageRead call x = message at heff
  generalize he : r.session.entry = e at heff
  generalize hevs : accessLog r.events = evs at heff
  have hserial : r.session.serial = e.serial := congrArg Entry.serial he
  have haddress : r.session.address = e.address := congrArg Entry.address he
  have hauth : r.session.authenticated = e.authenticated := congrArg Entry.authenticated he
  cases heff with
  | quiet =>
      refine ⟨hserial, haddress, ?_, ?_⟩
      · rw [hauth]
        simp [Session.entry]
      · simp [hevs, authOrder]
  | read packet hpast =>
      have hpast : x.authenticated = true ∨ x.loginAttempted = true := hpast
      have hno : (!x.authenticated && !x.loginAttempted) = false := by
        rcases hpast with h | h <;> simp [h]
      refine ⟨hserial, haddress, ?_, ?_⟩
      · rw [hauth, hno]
        simp [Session.entry]
      · rw [hevs, hno]
        simp [authOrder, authenticatedBy]
  | login frame _ hunauth hatt =>
      have hunauth : x.authenticated = false := hunauth
      have hatt : x.loginAttempted = false := hatt
      refine ⟨hserial, haddress, ?_, ?_⟩
      · rw [hauth, hunauth, hatt]
        simp [Entry.logIn, Session.entry]
      · rw [hevs, hunauth, hatt]
        simp only [authOrder, authenticatedBy, List.filterMap_cons, List.filterMap_nil,
          Session.entry, Bool.not_false, Bool.true_and, Option.any_some]
        split <;> split <;> simp_all

section Pass

variable {f : Session → Drained} {accepts : Session → Bool}

/-- No login is accepted for a session while an authenticated session of its
address stands behind it. -/
def LoginsInOrder (accepts : Session → Bool) (sessions : List Session) : Prop :=
  sessions.Pairwise fun x y =>
    accepts x = true → y.authenticated = true → x.address ≠ y.address

instance (accepts : Session → Bool) (sessions : List Session) :
    Decidable (LoginsInOrder accepts sessions) :=
  inferInstanceAs (Decidable (List.Pairwise _ sessions))

/-- A session after the pass is one before it, authenticated already or by a
login of the pass. -/
theorem authenticated_drainSessions (hf : ∀ x, Drains (accepts x) x (f x)) {l : List Session}
    {y : Session} :
    y ∈ (drainSessions f l).sessions →
    ∃ x ∈ l, y.serial = x.serial ∧ y.address = x.address ∧
      (y.authenticated = true → x.authenticated = true ∨
        x.serial ∈ authOrder (accessLog (drainSessions f l).events)) := by
  intro hy
  obtain ⟨x, hx, rfl | ⟨rfl, hevs⟩⟩ := mem_drainSessions f l y hy
  · exact ⟨y, hx, rfl, rfl, .inl⟩
  · refine ⟨x, hx, (hf x).serial, (hf x).address, fun hauth => ?_⟩
    rw [(hf x).authenticated, Bool.or_eq_true] at hauth
    refine hauth.imp_right fun haccepts => ?_
    have horder : x.serial ∈ authOrder (accessLog (f x).events) := by
      rw [(hf x).order, if_pos haccepts]
      exact List.mem_singleton_self _
    exact List.filterMap_subset _ (List.filterMap_subset _ hevs) horder

/-- A pass whose logins are in order leaves the list in order. -/
theorem drainSessions_ordered (hf : ∀ x, Drains (accepts x) x (f x)) :
    ∀ (l : List Session) (order : List Nat),
      Uncontested l →
      LoginsInOrder accepts l →
      (∀ x ∈ l, x.authenticated = true → x.serial ∈ order) →
      (drainSessions f l).sessions.Pairwise
        (OrderedBy (order ++ authOrder (accessLog (drainSessions f l).events))) := by
  intro l
  induction l with
  | nil => exact fun _ _ _ _ => List.Pairwise.nil
  | cons x xs ih =>
      intro order hone hlogins hin
      obtain ⟨hone, hones⟩ := List.pairwise_cons.mp hone
      obtain ⟨hlogin, hlogins⟩ := List.pairwise_cons.mp hlogins
      -- A session behind `x` that was authenticated before has another address.
      have hapart : ∀ y ∈ xs, (f x).session.authenticated = true → y.authenticated = true →
          (f x).session.address ≠ y.address := by
        intro y hy hx hyauth
        rw [(hf x).authenticated, Bool.or_eq_true] at hx
        rw [(hf x).address]
        exact hx.elim (fun h => hone y hy h hyauth) (fun h => hlogin y hy h hyauth)
      have hx : (f x).session.authenticated = true →
          x.serial ∈ order ++ authOrder (accessLog (f x).events) := by
        intro h
        rw [(hf x).authenticated, Bool.or_eq_true] at h
        rcases h with h | h
        · exact List.mem_append_left _ (hin x List.mem_cons_self h)
        · rw [(hf x).order, if_pos h]
          exact List.mem_append_right _ (List.mem_singleton_self _)
      unfold drainSessions
      dsimp only
      split
      · refine List.pairwise_cons.mpr ⟨fun y hy hxa hya haddr => ?_, ?_⟩
        · exact absurd haddr (hapart y hy hxa hya)
        · exact hones.imp fun h hxa hya haddr => absurd haddr (h hxa hya)
      · dsimp only
        rw [accessLog_append, authOrder_append, ← List.append_assoc]
        have hrest := ih (order ++ authOrder (accessLog (f x).events)) hones hlogins
          fun y hy h => List.mem_append_left _ (hin y (List.mem_cons_of_mem x hy) h)
        refine List.pairwise_cons.mpr ⟨fun y hy hxa hya haddr => ?_, hrest⟩
        obtain ⟨z, hz, hserial, haddress, hauth⟩ := authenticated_drainSessions hf hy
        rcases hauth hya with h | h
        · exact absurd (haddr.trans haddress) (hapart z hz hxa h)
        · have hpair := (List.singleton_sublist.mpr (hx hxa)).append (List.singleton_sublist.mpr h)
          rw [← (hf x).serial, ← hserial] at hpair
          exact hpair

end Pass

/-! ## The whole run -/

/-- The steps that keep two sessions of one client in the order in which they
authenticated: logins are accepted in the order of the list, and while two
sessions of one client wait for the deduplication pass none is removed by
`swap_remove`. -/
def InOrder (s : ServerState) : Action → Prop
  | .decrypt (.drain calls) =>
      LoginsInOrder (fun x => acceptsLogin s.rules (calls x.serial) x) s.sessions
  | .udpWrite calls =>
      Uncontested s.sessions ∨ ∀ x ∈ s.sessions, (udpWriteSession s.now (calls x.serial) x).2 = false
  | .control (.pass _ calls) =>
      Uncontested s.sessions ∨ ∀ x ∈ s.sessions, (retransmit s.now calls x).isSome = true
  | _ => True

/-- Before the deduplication pass the list is in order. -/
def OrderedBefore (tr : List Event) (s : ServerState) : Prop :=
  s.decrypt = .deduplicate → s.sessions.Pairwise (OrderedBy (authOrder (accessLog tr)))

section Runs

variable {cfg : ServerConfig} {rules : Rules} {as : List Action} {tr evs : List Event}
  {s s' : ServerState} {a : Action}

theorem ordered_of_uncontested {order : List Nat} {l : List Session} :
    Uncontested l → l.Pairwise (OrderedBy order) :=
  fun h => h.imp fun h hx hy haddr => absurd haddr (h hx hy)

/-- The order is a matter of the entries. -/
theorem ordered_of_sublist {order : List Nat} {l l' : List Session} :
    (l'.map Session.entry).Sublist (l.map Session.entry) → l.Pairwise (OrderedBy order) →
    l'.Pairwise (OrderedBy order) := by
  intro hsub hl
  have hentries : (l.map Session.entry).Pairwise (Entry.OrderedBy order) := List.pairwise_map.mpr hl
  have hentries' := List.pairwise_map.mp (hentries.sublist hsub)
  exact hentries'

/-- The other workers leave the order alone, if they keep to the guard. -/
theorem Effect.sublist_of_inOrder :
    Effect cfg s a s' evs → InOrder s a → a.isDecrypt = false →
    Uncontested s.sessions ∨
      (s'.sessions.map Session.entry).Sublist (s.sessions.map Session.entry) := by
  intro h hguard ha
  cases h with
  | idle _ _ hentries _ => exact .inr (hentries ▸ List.Sublist.refl _)
  | removed _ _ _ _ hremoval =>
      generalize s'.sessions = sessions at hremoval ⊢
      cases hremoval with
      | udpWrite calls =>
          refine Or.imp_right (fun hok => ?_) hguard
          rw [entries_udpWritePass hok]
      | pass commands calls => exact Or.imp_right controlPass_sublist hguard
  | purged _ _ => exact .inr (List.filter_sublist.map _)
  | sent _ hsessions _ _ _ _ _ _ => exact .inr (hsessions ▸ List.Sublist.refl _)
  | moved | drained | deduplicated | adopted | admission | processed => exact nomatch ha

theorem Effect.accessLog_nil :
    Effect cfg s a s' evs → a.isDecrypt = false → accessLog evs = [] := by
  intro h ha
  cases h with
  | idle _ _ _ hevs => exact accessLog_idle hevs
  | removed _ _ _ hshrinks _ =>
      obtain ⟨removed, hr⟩ := hshrinks.dropped
      have hr : evs = dropAll removed := hr
      rw [hr, accessLog_dropAll]
  | purged _ _ => exact accessLog_dropAll _
  | sent _ _ _ _ _ _ _ _ => rfl
  | moved | drained | deduplicated | adopted | admission | processed => exact nomatch ha

theorem Effect.orderedBefore :
    Effect cfg s a s' evs → InOrder s a → Lawful cfg (accessLog tr) s.table →
    s.OneForEachOutside → OrderedBefore tr s → OrderedBefore (tr ++ evs) s' := by
  intro h hguard hl hone ho
  -- The steps of the other workers.
  have hother : a.isDecrypt = false → s'.decrypt = s.decrypt → OrderedBefore (tr ++ evs) s' := by
    intro ha hpc hdedup
    rw [hpc] at hdedup
    rcases h.sublist_of_inOrder hguard ha with huncontested | hsub
    · have hone' := (h.moves hl).oneForEach (login_notMem_kinds ha) hl.staged
        (oneForEach_iff.mpr huncontested)
      exact ordered_of_uncontested (oneForEach_iff.mp hone')
    · rw [accessLog_append, h.accessLog_nil ha, List.append_nil]
      exact ordered_of_sublist hsub (ho hdedup)
  cases h with
  | idle ha hframe _ _ => exact hother ha hframe.decrypt
  | removed ha hframe _ _ _ => exact hother ha hframe.decrypt
  | purged _ _ => exact hother rfl rfl
  | sent _ _ _ _ hdecrypt _ _ _ => exact hother rfl hdecrypt
  | moved _ hpc _ _ => exact fun hdedup => absurd hdedup hpc
  | @drained calls _ _ hpc _ =>
      intro _
      rw [accessLog_append, authOrder_append]
      refine drainSessions_ordered
        (fun x => drainSession_drains cfg s.rules s.now (calls x.serial) x) s.sessions _
        (oneForEach_iff.mp (hone (by rw [hpc]; nofun) (by rw [hpc]; nofun))) hguard fun x hx hauth => ?_
      exact (hl.authOnce.entries _ (entry_mem_table hx)).mpr hauth
  | deduplicated _ => exact nofun
  | adopted hpc _ => exact fun hdedup => nomatch hpc.symm.trans hdedup
  | admission _ _ _ hpc => exact fun hdedup => absurd hdedup hpc
  | processed _ _ => exact nofun

theorem server_orderedBefore :
    (server cfg rules).Run InOrder as tr s → OrderedBefore tr s := by
  refine Machine.Run.invariant₂
    (fun tr (s : ServerState) => Lawful cfg (accessLog tr) s.table ∧ s.OneForEachOutside)
    OrderedBefore (fun hr => ⟨server_lawful hr, server_oneForEachOutside hr⟩) nofun ?_
  intro tr s a s' evs hI ho hguard hs
  exact (step_cases hs).orderedBefore hguard hI.1 hI.2 ho

/-- In every run that keeps to the guard the newest sessions stand last. -/
theorem newestLast_of_run :
    (server cfg rules).Run InOrder as tr s → s.decrypt = .deduplicate →
    ∀ address, NewestLast tr address s.sessions := by
  intro hr hdedup address
  have hl := server_lawful hr
  exact newestLast_of_ordered (server_orderedBefore hr hdedup) hl.authOnce.nodup
    (fun x hx hauth => (hl.authOnce.entries _ (entry_mem_table hx)).mpr hauth) (serials_of_run hr)

/-- Without a login the earlier sessions are replaced at once. -/
theorem process_replaces {call : HandshakeCall} {e : Entry} {evidence : Evidence} :
    (server cfg rules).Run Machine.Free as tr s →
    step cfg s (.decrypt (.process call)) = some (s', evs) →
    .access (.established e evidence) ∈ evs → e.authenticated = true →
    (∀ y ∈ s.sessions, isFor e.address y = true → .dropped (y.because .replaced) ∈ evs) ∧
    ∀ y ∈ s'.sessions, isFor e.address y = true → y.serial = e.serial := by
  intro hr hs hev hauth
  have hl := server_lawful hr
  have hstaged : ∀ y ∈ s.sessions, y.authenticated = true → y.established = true :=
    fun y hy => (hl.staged _ (entry_mem_table hy)).authenticated
  cases step_cases hs with
  | idle ha => exact nomatch ha
  | removed ha => exact nomatch ha
  | moved _ _ _ _ => exact absurd hev List.not_mem_nil
  | @processed _ incoming index newSession r _ hrun =>
      rcases processDatagram_cases hrun with rfl | ⟨x, hx, heff⟩
      · exact absurd hev List.not_mem_nil
      · have hperm : s.sessions.Perm (x :: s.sessions.eraseIdx index) := by
          obtain ⟨hlt, rfl⟩ := List.getElem?_eq_some_iff.mp hx
          exact (List.getElem_cons_eraseIdx_perm hlt).symm
        cases heff with
        | kept _ _ => exact absurd hev List.not_mem_nil
        | removed _ _ hnone =>
            exact absurd (hnone ▸ mem_accessLog.mpr hev) List.not_mem_nil
        | @established x' l kept evs c hpend _ _ hentry _ _ hl' hkept _ hdropped hevs =>
            obtain ⟨rfl, rfl⟩ := AccessEvent.established.inj
              (List.mem_singleton.mp (hevs ▸ mem_accessLog.mpr hev))
            rw [hentry] at hauth ⊢
            have hnologin : (s.rules.logins.lookup c.address).isNone = true := hauth
            -- Whoever else is authenticated for the address is a duplicate.
            have hdup : ∀ y ∈ s.sessions.eraseIdx index, isFor c.address y = true →
                isDuplicate c.address x.peer y = true := by
              intro y hy hfor
              simp only [isFor, Bool.and_eq_true, beq_iff_eq] at hfor
              exact isDuplicate_of_distinct hl.distinct hx hy
                (hstaged y (List.mem_of_mem_eraseIdx hy) hfor.1) hfor.2
            refine ⟨fun y hy hfor => ?_, fun y hy hfor => ?_⟩
            · rcases List.mem_cons.mp (hperm.subset hy) with rfl | hy'
              · simp only [isFor, Bool.and_eq_true] at hfor
                exact nomatch hpend.symm.trans (hstaged y hy hfor.1)
              · exact hdropped hnologin y hy' (hdup y hy' hfor)
            · rcases List.mem_cons.mp (hl'.subset hy) with rfl | hy'
              · exact congrArg Entry.serial hentry
              · rw [hkept] at hy'
                obtain ⟨hy', hnot⟩ := List.mem_filter.mp hy'
                rw [hnologin, hdup y hy' hfor] at hnot
                exact nomatch hnot

theorem step_deduplicate : s.decrypt = .deduplicate →
    step cfg s (.decrypt .deduplicate) =
      some ({ s with
        sessions := (deduplicate s.sessions).1
        handshakeLimiter := s.handshakeLimiter.purge s.now
        decrypt := .adoptReload }, (deduplicate s.sessions).2) := by
  intro hpc
  simp only [step, decryptStep, hpc]

/-- **Newest authentication wins.**  At the deduplication pass of every run it
does for an address exactly when its newest session stands last in the list;
it does for all addresses in every run that accepts logins in the order of the
list and removes no session by `swap_remove` while two sessions of one client
wait for the pass; and a session that owes no login replaces the others in the
step that establishes it. -/
theorem newest_authentication_wins :
    (server cfg rules).Run Machine.Free as tr s →
    (∀ s' evs address, step cfg s (.decrypt .deduplicate) = some (s', evs) →
      (NewestWins tr address s.sessions (s'.sessions, evs) ↔ NewestLast tr address s.sessions)) ∧
    ((server cfg rules).Run InOrder as tr s → ∀ s' evs address,
      step cfg s (.decrypt .deduplicate) = some (s', evs) →
        NewestWins tr address s.sessions (s'.sessions, evs)) ∧
    ∀ call s' evs e evidence, step cfg s (.decrypt (.process call)) = some (s', evs) →
      .access (.established e evidence) ∈ evs → e.authenticated = true →
      (∀ y ∈ s.sessions, isFor e.address y = true → .dropped (y.because .replaced) ∈ evs) ∧
      ∀ y ∈ s'.sessions, isFor e.address y = true → y.serial = e.serial := by
  intro hr
  have hpass : ∀ {s' evs}, step cfg s (.decrypt .deduplicate) = some (s', evs) →
      s.decrypt = .deduplicate ∧ (s'.sessions, evs) = deduplicate s.sessions := by
    intro s' evs hs
    have hpc : s.decrypt = .deduplicate := by
      simp only [step, decryptStep] at hs
      split at hs
      · assumption
      · cases hs
    rw [step_deduplicate hpc] at hs
    obtain ⟨rfl, rfl⟩ := Prod.mk.inj (Option.some.inj hs)
    exact ⟨hpc, rfl⟩
  refine ⟨fun s' evs address hs => ?_, fun hr' s' evs address hs => ?_,
    fun call s' evs e evidence hs => process_replaces hr hs⟩
  · rw [(hpass hs).2]
    exact deduplicate_iff
  · rw [(hpass hs).2]
    exact deduplicate_iff.mpr (newestLast_of_run hr' (hpass hs).1 address)

/-- Two peers of a client are established and owe a login; `first` logs in, and
in the next pass `second`. -/
def Sample.twoLogins (first second : Nat) : List Action :=
  twoPeers ++ turn silent (port first) true ++ turn (reads first frame) (port second) true ++
    [.decrypt (.drain (reads second frame))]
where
  frame : Packet := AUTH_LOGIN_PREFIX ++ asBytes "alice" ++ 0 :: asBytes "secret"
  port (serial : Nat) : UInt16 := .ofNat (serial + 1)

/-- A guard that can be computed. -/
def Sample.inOrder (s : ServerState) : Action → Bool
  | .decrypt (.drain calls) =>
      decide (LoginsInOrder (fun x => acceptsLogin s.rules (calls x.serial) x) s.sessions)
  | .udpWrite _ => false
  | .control (.pass _ _) => false
  | _ => true

theorem inOrder_of_sample : Sample.inOrder s a = true → InOrder s a := by
  intro h
  cases a with
  | decrypt d =>
      cases d with
      | drain calls =>
          have hlogins : LoginsInOrder _ s.sessions := of_decide_eq_true h
          exact hlogins
      | deduplicate | adoptReload | takeDatagram | findSession | process => trivial
  | control c =>
      cases c with
      | pass commands calls => exact absurd h Bool.false_ne_true
      | decide | purge | send | respond | fail => trivial
  | udpWrite calls => exact absurd h Bool.false_ne_true
  | tick | deactivate | shutdown | tunReadFailed | udpReceived | tunReceived | encrypt => trivial

theorem newest_authentication_wins_twoLogins :
    ∃ as tr s s' evs, (server Sample.config (Sample.rules (some ("alice", "secret")))).Run
        InOrder as tr s ∧
      step Sample.config s (.decrypt .deduplicate) = some (s', evs) ∧
      authOrder (accessLog tr) = [0, 1] ∧ NewestWins tr Sample.address s.sessions (s'.sessions, evs) := by
  have hr : (server Sample.config (Sample.rules (some ("alice", "secret")))).Run InOrder
      (Sample.twoLogins 0 1) _ _ :=
    Machine.run_outcome (fun _ _ => inOrder_of_sample) (by decide +kernel)
  exact ⟨Sample.twoLogins 0 1, _, _, _, _, hr, step_deduplicate (by decide +kernel),
    by decide +kernel, (newest_authentication_wins hr.free).2.1 hr _ _ Sample.address
      (step_deduplicate (by decide +kernel))⟩

/-- When the second peer logs in first, the pass keeps it, which stands last,
and drops the one that authenticated last. -/
theorem late_login_loses :
    ∃ as tr s s' evs, (server Sample.config (Sample.rules (some ("alice", "secret")))).Run
        Machine.Free as tr s ∧
      step Sample.config s (.decrypt .deduplicate) = some (s', evs) ∧
      authOrder (accessLog tr) = [1, 0] ∧
      (s'.sessions.filter (isFor Sample.address)).map (·.serial) = [1] ∧
      ¬ NewestWins tr Sample.address s.sessions (s'.sessions, evs) := by
  have hpc : (Sample.outcome (some ("alice", "secret")) (Sample.twoLogins 1 0)).1.decrypt =
      .deduplicate := by decide +kernel
  refine ⟨Sample.twoLogins 1 0, _, _, _, _, run_sample (by decide +kernel), step_deduplicate hpc,
    by decide +kernel, by decide +kernel, fun h => ?_⟩
  have hserials := congrArg (List.map (·.serial)) h.survivors
  revert hserials
  decide +kernel

end Runs

end AutobricksVpn
