/-
# `AutobricksVpn.Client.ForcedDns` — the name servers that a client takes and gives back

With `force_dns` the client sends all questions to the server's resolver.  On macOS
`DnsGuard::apply` of `src/lib.rs` goes through the network services one after the
other: it reads the name servers of a service, keeps them in the guard and sets its
own.  Whatever fails on the way drops the guard, and `Drop` sets the kept ones
again, the last service first.

The commands are `networksetup`'s: what it prints and what it makes of its
arguments is a parameter, and each of them may fail, with or without effect.  Others
change the settings meanwhile; as long as they leave alone the services that the
guard has read, the guard leaves no trace (`dns_given_back`).
-/
import AutobricksVpn.Config.Text
import AutobricksVpn.Lib.Machine
import AutobricksVpn.Lib.Undo
import Mathlib.Data.List.Infix

namespace AutobricksVpn

namespace ForcedDns

/-! ## `networksetup` -/

structure NetworkSetup (Server : Type) where
  /-- What `-getdnsservers` prints for the service. -/
  printed : Text → List Server → Text
  /-- What `-setdnsservers` makes of the arguments behind the service. -/
  understood : List Text → List Server

def NO_SERVERS : Text := "aren't any DNS Servers".toList

/-- As its manual has it: one server a line, or a sentence if there is none. -/
structure NetworkSetup.Documented {Server : Type} (n : NetworkSetup Server) : Prop where
  none : ∀ service, NO_SERVERS <:+: n.printed service []
  some : ∀ service servers, servers ≠ [] → ¬ NO_SERVERS <:+: n.printed service servers ∧
    Text.lines (n.printed service servers) ≠ [] ∧
    n.understood (Text.lines (n.printed service servers)) = servers
  empty : n.understood ["Empty".toList] = []

/-! ## The guard -/

/-- The services of a list, without its first line and the disabled ones. -/
def listedServices (output : Text) : List Text :=
  ((Text.lines output).drop 1).filter fun service => service ≠ [] ∧ service.head? ≠ some '*'

/-- `previous`. -/
def previousServers (output : Text) : List Text :=
  if NO_SERVERS <:+: output then [] else Text.lines output

/-- The arguments of `drop`, behind the service. -/
def restoreArguments (servers : List Text) : List Text :=
  if servers = [] then ["Empty".toList] else servers

/-- Where the client stands. -/
inductive Phase where
  /-- There is no guard, or no longer. -/
  | idle
  | listing
  | reading (service : Text) (rest : List Text)
  | setting (service : Text) (rest : List Text)
  | held
  /-- In `drop`: the services that are still to be set are those of the guard. -/
  | restoring
  deriving DecidableEq

structure State (Server : Type) where
  dns : Text → List Server
  phase : Phase
  /-- `services` of the guard. -/
  services : List (Text × List Text)

inductive Act (Server : Type) where
  | apply
  /-- `-listallnetworkservices`, with its output if it succeeds. -/
  | list (output : Option Text)
  | get (answered : Bool)
  /-- `-setdnsservers`: whether it did, and whether it said so. -/
  | set (written reported : Bool)
  | release
  /-- Somebody else. -/
  | change (service : Text) (servers : List Server)

inductive Event (Server : Type) where
  | listed (services : List Text)
  | changed (service : Text) (servers : List Server)

/-- The head of the `for`. -/
def nextService : List Text → Phase
  | [] => .held
  | service :: rest => .reading service rest

section Steps

variable {Server : Type} (n : NetworkSetup Server) (server : Text)

/-- The head of the loop of `drop`. -/
def State.giveBack (s : State Server) : State Server :=
  { s with phase := if s.services = [] then .idle else .restoring }

def State.write (s : State Server) (written : Bool) (service : Text) (arguments : List Text) :
    State Server :=
  if written then { s with dns := Function.update s.dns service (n.understood arguments) } else s

def step (s : State Server) : Act Server → Option (State Server × List (Event Server))
  | .apply =>
      match s.phase with
      | .idle => some ({ s with phase := .listing, services := [] }, [])
      | _ => none
  | .list output =>
      match s.phase, output with
      | .listing, none => some ({ s with phase := .idle }, [])
      | .listing, some output =>
          some ({ s with phase := nextService (listedServices output) },
            [.listed (listedServices output)])
      | _, _ => none
  | .get answered =>
      match s.phase with
      | .reading service rest =>
          if answered then
            some ({ s with
              phase := .setting service rest
              services := s.services ++
                [(service, previousServers (n.printed service (s.dns service)))] }, [])
          else some (s.giveBack, [])
      | _ => none
  | .set written reported =>
      match s.phase with
      | .setting service rest =>
          if reported then
            some ({ s.write n written service [server] with phase := nextService rest }, [])
          else some ((s.write n written service [server]).giveBack, [])
      | .restoring =>
          match s.services.getLast? with
          | some (service, servers) =>
              some (State.giveBack { s.write n written service (restoreArguments servers) with
                services := s.services.dropLast }, [])
          | none => none
      | _ => none
  | .release =>
      match s.phase with
      | .held => some (s.giveBack, [])
      | _ => none
  | .change service servers =>
      some ({ s with dns := Function.update s.dns service servers }, [.changed service servers])

def machine (dns : Text → List Server) : Machine (State Server) (Act Server) (Event Server) where
  init := { dns := dns, phase := .idle, services := [] }
  step := step n server

end Steps

/-! ## What the others see -/

section Runs

variable {Server : Type} {n : NetworkSetup Server} {server : Text} {dns : Text → List Server}
  {s s' : State Server} {a : Act Server} {as : List (Act Server)}
  {tr evs : List (Event Server)}

/-- The settings as they would be without the guard. -/
def untouched (dns : Text → List Server) (tr : List (Event Server)) : Text → List Server :=
  tr.foldl (fun dns event => match event with
    | .listed _ => dns
    | .changed service servers => Function.update dns service servers) dns

/-- The services that were listed last. -/
def lastListed (tr : List (Event Server)) : List Text :=
  tr.foldl (fun services event => match event with
    | .listed listed => listed
    | .changed _ _ => services) []

/-- The services that the guard has read. -/
def State.keys (s : State Server) : List Text := s.services.map Prod.fst

/-- Nobody else changes a service that the guard has read, a command that says it
succeeded did its work, and so do those of `drop`. -/
def Orderly (s : State Server) : Act Server → Prop
  | .change service _ => service ∉ s.keys
  | .set written reported => (reported = true → written = true) ∧
      (s.phase = .restoring → written = true)
  | _ => True

/-- What the guard keeps of servers that it has read. -/
def kept (n : NetworkSetup Server) (entry : Text × List Server) : Text × List Text :=
  (entry.1, previousServers (n.printed entry.1 entry.2))

theorem restore_kept (hn : n.Documented) (service : Text) (servers : List Server) :
    n.understood (restoreArguments (previousServers (n.printed service servers))) = servers := by
  unfold previousServers restoreArguments
  by_cases hnone : servers = []
  · subst hnone
    rw [if_pos (hn.none service), if_pos rfl, hn.empty]
  · obtain ⟨hsentence, hlines, hread⟩ := hn.some service servers hnone
    rw [if_neg hsentence, if_neg hlines, hread]

/-- What the guard has done so far, by where it stands. -/
def Progress (n : NetworkSetup Server) (server : Text) (tr : List (Event Server))
    (s : State Server) : Prop :=
  match s.phase with
  | .idle | .listing => s.services = []
  | .reading service rest => lastListed tr = s.keys ++ service :: rest ∧
      ∀ service ∈ s.keys, s.dns service = n.understood [server]
  | .setting service rest => lastListed tr = s.keys ++ rest ∧
      ∃ before, s.keys = before ++ [service] ∧
        ∀ service ∈ before, s.dns service = n.understood [server]
  | .held => lastListed tr = s.keys ∧ ∀ service ∈ s.keys, s.dns service = n.understood [server]
  | .restoring => True

theorem Progress.at_phase {phase : Phase} (hphase : s.phase = phase)
    (h : Progress n server tr s) : Progress n server tr { s with phase := phase } :=
  hphase ▸ h

/-- The invariant: the guard could give everything back. -/
structure Sound (n : NetworkSetup Server) (server : Text) (dns : Text → List Server)
    (tr : List (Event Server)) (s : State Server) : Prop where
  given : ∃ log : List (Text × List Server), s.services = log.map (kept n) ∧
    Undo.undo log s.dns = untouched dns tr
  progress : Progress n server tr s

theorem keys_kept {log : List (Text × List Server)} (h : s.services = log.map (kept n)) :
    log.map Prod.fst = s.keys := by
  rw [State.keys, h, List.map_map]
  rfl

/-- A guard that is dropped asks nothing but its own services. -/
theorem sound_giveBack (h : ∃ log : List (Text × List Server), s.services = log.map (kept n) ∧
    Undo.undo log s.dns = untouched dns tr) : Sound n server dns tr s.giveBack := by
  refine ⟨h, ?_⟩
  unfold State.giveBack Progress
  by_cases hnone : s.services = []
  · simp only [if_pos hnone]
    exact hnone
  · simp only [if_neg hnone]

theorem progress_next {rest : List Text} (hlisted : lastListed tr = s.keys ++ rest)
    (htaken : ∀ service ∈ s.keys, s.dns service = n.understood [server]) :
    Progress n server tr { s with phase := nextService rest } := by
  cases rest with
  | nil => exact ⟨hlisted.trans (List.append_nil _), htaken⟩
  | cons service rest => exact ⟨hlisted, htaken⟩

theorem untouched_listed (services : List Text) :
    untouched dns (tr ++ [.listed services]) = untouched dns tr := by
  rw [untouched, List.foldl_append]
  rfl

theorem untouched_changed (service : Text) (servers : List Server) :
    untouched dns (tr ++ [.changed service servers]) =
      Function.update (untouched dns tr) service servers := by
  rw [untouched, List.foldl_append]
  rfl

theorem lastListed_listed (services : List Text) :
    lastListed (tr ++ [Event.listed services]) = services := by
  rw [lastListed, List.foldl_append]
  rfl

theorem lastListed_changed (service : Text) (servers : List Server) :
    lastListed (tr ++ [Event.changed service servers]) = lastListed tr := by
  rw [lastListed, List.foldl_append]
  rfl

/-- What the guard has read it may set as often as it likes. -/
theorem given_write {log : List (Text × List Server)} (hlog : s.services = log.map (kept n))
    (hundo : Undo.undo log s.dns = untouched dns tr) {service : Text} (hmem : service ∈ s.keys)
    (written : Bool) (arguments : List Text) :
    ∃ log : List (Text × List Server),
      (s.write n written service arguments).services = log.map (kept n) ∧
        Undo.undo log (s.write n written service arguments).dns = untouched dns tr := by
  cases written with
  | false => exact ⟨log, hlog, hundo⟩
  | true =>
      rw [← keys_kept hlog] at hmem
      exact ⟨log, hlog, (Undo.undo_update_mem hmem).trans hundo⟩

/-- Somebody else has changed a service that the guard has not read. -/
theorem progress_change {service : Text} {servers : List Server} (hother : service ∉ s.keys)
    (h : Progress n server tr s) :
    Progress n server (tr ++ [.changed service servers])
      { s with dns := Function.update s.dns service servers } := by
  obtain ⟨values, phase, services⟩ := s
  have hsame : ∀ key ∈ services.map Prod.fst, Function.update values service servers key =
      values key := by
    intro key hkey
    refine Function.update_of_ne ?_ _ _
    rintro rfl
    exact hother hkey
  cases phase with
  | idle | listing => exact h
  | restoring => trivial
  | reading next rest =>
      obtain ⟨hlisted, htaken⟩ := h
      exact ⟨(lastListed_changed _ _).trans hlisted,
        fun key hkey => (hsame key hkey).trans (htaken key hkey)⟩
  | held =>
      obtain ⟨hlisted, htaken⟩ := h
      exact ⟨(lastListed_changed _ _).trans hlisted,
        fun key hkey => (hsame key hkey).trans (htaken key hkey)⟩
  | setting next rest =>
      obtain ⟨hlisted, before, hkeys, htaken⟩ := h
      have hkeys' : services.map Prod.fst = before ++ [next] := hkeys
      refine ⟨(lastListed_changed _ _).trans hlisted, before, hkeys, fun key hkey => ?_⟩
      have hmem : key ∈ services.map Prod.fst := hkeys' ▸ List.mem_append_left _ hkey
      exact (hsame key hmem).trans (htaken key hkey)

theorem step_sound (hn : n.Documented) (horderly : Orderly s a) :
    step n server s a = some (s', evs) →
    Sound n server dns tr s → Sound n server dns (tr ++ evs) s' := by
  fun_cases step n server s a
  all_goals rintro ⟨⟩
  all_goals rintro ⟨⟨log, hlog, hundo⟩, hprogress⟩
  all_goals try rw [List.append_nil]
  case case1 hphase =>
    have hnone : s.services = [] := hprogress.at_phase hphase
    exact ⟨⟨log, hnone.symm.trans hlog, hundo⟩, rfl⟩
  case case3 hphase =>
    have hnone : s.services = [] := hprogress.at_phase hphase
    exact ⟨⟨log, hlog, hundo⟩, hnone⟩
  case case4 output hphase =>
    have hnone : s.services = [] := hprogress.at_phase hphase
    have hkeys : s.keys = [] := by rw [State.keys, hnone, List.map_nil]
    refine ⟨⟨log, hlog, hundo.trans (untouched_listed _).symm⟩, progress_next ?_ fun key hkey => ?_⟩
    · rw [lastListed_listed, hkeys, List.nil_append]
    · rw [hkeys] at hkey
      cases hkey
  case case6 service rest hphase =>
    obtain ⟨hlisted, htaken⟩ := hprogress.at_phase hphase
    refine ⟨⟨log ++ [(service, s.dns service)], ?_, Undo.undo_log.trans hundo⟩, ?_⟩
    · rw [List.map_append, ← hlog]
      rfl
    · have hkeys : (s.services ++ [(service, previousServers (n.printed service
          (s.dns service)))]).map Prod.fst = s.keys ++ [service] := by
        rw [List.map_append]
        rfl
      refine ⟨?_, s.keys, hkeys, htaken⟩
      show _ = List.map Prod.fst (s.services ++ _) ++ rest
      rw [hkeys, List.append_assoc, List.singleton_append]
      exact hlisted
  case case7 => exact sound_giveBack ⟨log, hlog, hundo⟩
  case case9 written service rest hphase =>
    obtain ⟨hlisted, before, hkeys, htaken⟩ := hprogress.at_phase hphase
    obtain rfl := horderly.1 rfl
    have hmem : service ∈ s.keys := hkeys ▸ List.mem_append_right _ List.mem_cons_self
    refine ⟨given_write hlog hundo hmem true [server], progress_next hlisted fun key hkey => ?_⟩
    by_cases hlast : key = service
    · rw [hlast]
      exact Function.update_self _ _ _
    · refine (Function.update_of_ne hlast _ _).trans (htaken key ?_)
      have hkey' : key ∈ before ++ [service] := hkeys ▸ hkey
      exact (List.mem_append.mp hkey').resolve_right fun h => hlast (List.mem_singleton.mp h)
  case case10 written reported service rest hphase _ =>
    obtain ⟨-, before, hkeys, -⟩ := hprogress.at_phase hphase
    have hmem : service ∈ s.keys := hkeys ▸ List.mem_append_right _ List.mem_cons_self
    exact sound_giveBack (given_write hlog hundo hmem written [server])
  case case11 written reported hphase service servers hlast =>
    obtain rfl := horderly.2 hphase
    refine sound_giveBack ?_
    obtain ⟨earlier, entry, rfl⟩ : ∃ earlier entry, log = earlier ++ [entry] := by
      rcases List.eq_nil_or_concat log with rfl | h
      · rw [hlog] at hlast
        cases hlast
      · simpa only [List.concat_eq_append] using h
    rw [hlog, List.map_append, List.map_singleton, List.getLast?_concat] at hlast
    obtain ⟨rfl, rfl⟩ := Prod.mk.inj (Option.some.inj hlast)
    refine ⟨earlier, ?_, ?_⟩
    · show s.services.dropLast = _
      rw [hlog, List.map_append, List.map_singleton, List.dropLast_concat]
    · show Undo.undo earlier (Function.update s.dns entry.1 _) = _
      rw [restore_kept hn, ← Undo.undo_writeBack, ← hundo]
  case case14 => exact sound_giveBack ⟨log, hlog, hundo⟩
  case case16 service servers =>
    have hnot : service ∉ log.map Prod.fst := by
      rw [keys_kept hlog]
      exact horderly
    refine ⟨⟨log, hlog, ?_⟩, progress_change horderly hprogress⟩
    rw [untouched_changed, ← hundo]
    exact Undo.undo_update_not_mem hnot

theorem start_sound : Sound n server dns [] (machine n server dns).init where
  given := ⟨[], rfl, rfl⟩
  progress := rfl

theorem run_sound (hn : n.Documented) (h : (machine n server dns).Run Orderly as tr s) :
    Sound n server dns tr s :=
  h.invariant (fun tr s => Sound n server dns tr s) start_sound
    fun hs horderly hstep => step_sound hn horderly hstep hs

/-- **The guard leaves no trace.**  Whatever the services are, wherever `apply` fails
and whoever changes other services meanwhile: without a guard all settings are as the
others have left them, and so are, at any time, those of the services it has not read.
While it is held, the services that were listed ask the server. -/
theorem dns_given_back (hn : n.Documented) (h : (machine n server dns).Run Orderly as tr s) :
    (s.phase = .idle → s.dns = untouched dns tr) ∧
    (∀ service ∉ s.keys, s.dns service = untouched dns tr service) ∧
    (s.phase = .held → s.keys = lastListed tr ∧
      ∀ service ∈ lastListed tr, s.dns service = n.understood [server]) := by
  obtain ⟨⟨log, hlog, hundo⟩, hprogress⟩ := run_sound hn h
  refine ⟨fun hphase => ?_, fun service hservice => ?_, fun hphase => ?_⟩
  · have hnone : s.services = [] := hprogress.at_phase hphase
    obtain rfl := List.map_eq_nil_iff.mp (hlog.symm.trans hnone)
    exact hundo
  · rw [← hundo]
    exact (Undo.undo_not_mem (keys_kept hlog ▸ hservice)).symm
  · obtain ⟨hlisted, htaken⟩ := hprogress.at_phase hphase
    exact ⟨hlisted.symm, fun service hservice => htaken service (hlisted ▸ hservice)⟩

/-! ## A service whose settings cannot be set -/

/-- Lines that end with a newline each. -/
theorem lines_terminated {lines : List Text} :
    (∀ line ∈ lines, '\n' ∉ line ∧ line.getLast? ≠ some '\r') →
    Text.lines (lines.flatMap (· ++ ['\n'])) = lines := by
  intro h
  induction lines with
  | nil => rfl
  | cons line lines ih =>
      obtain ⟨⟨hnewline, hreturn⟩, hlines⟩ := List.forall_mem_cons.mp h
      have hrest := ih hlines
      obtain ⟨first, others, hsplit⟩ := List.exists_cons_of_ne_nil
        (List.splitOn_ne_nil '\n' (lines.flatMap (· ++ ['\n'])))
      have hline : (line ++ '\n' :: lines.flatMap (· ++ ['\n'])).splitOn '\n' =
          line :: first :: others := by
        rw [List.splitOn_append_cons_self_of_not_mem hnewline, hsplit]
      have hothers : Text.linesOf (first :: others) = lines := by
        rw [← hsplit]
        exact hrest
      rw [List.flatMap_cons, List.append_assoc, List.singleton_append]
      show Text.linesOf ((line ++ '\n' :: lines.flatMap (· ++ ['\n'])).splitOn '\n') = _
      rw [hline, Text.linesOf, hothers, Text.stripCarriageReturn, if_neg hreturn]
      exact List.cons_ne_nil _ _

/-- The spelling of an address. -/
abbrev Resolver := { t : Text // t ≠ [] ∧ t.all (fun c => c.isDigit || c == '.') = true }

def resolver (argument : Text) : Option Resolver :=
  if h : argument ≠ [] ∧ argument.all (fun c => c.isDigit || c == '.') = true then
    some ⟨argument, h⟩
  else none

def networksetup : NetworkSetup Resolver where
  printed service servers :=
    match servers with
    | [] => "There ".toList ++ NO_SERVERS ++ (" set on ".toList ++ service ++ ".\n".toList)
    | _ => (servers.map Subtype.val).flatMap (· ++ ['\n'])
  understood arguments := arguments.filterMap resolver

theorem mem_resolver (server : Resolver) {c : Char} (hc : c ∈ server.1) :
    c.isDigit = true ∨ c = '.' := by
  have hall := List.all_eq_true.mp server.2.2 c hc
  rwa [Bool.or_eq_true, beq_iff_eq] at hall

theorem networksetup_documented : networksetup.Documented where
  none service := ⟨_, _, rfl⟩
  some service servers hservers := by
    obtain ⟨server, others, rfl⟩ := List.exists_cons_of_ne_nil hservers
    have hlines : Text.lines (networksetup.printed service (server :: others)) =
        (server :: others).map Subtype.val := by
      refine lines_terminated fun line hline => ?_
      obtain ⟨server, -, rfl⟩ := List.mem_map.mp hline
      refine ⟨fun hmem => ?_, fun hlast => ?_⟩
      · exact absurd (mem_resolver server hmem) (by decide)
      · exact absurd (mem_resolver server (List.mem_of_mem_getLast? hlast)) (by decide)
    refine ⟨fun hsentence => ?_, by rw [hlines]; exact List.cons_ne_nil _ _, ?_⟩
    · have hmem : 'D' ∈ ((server :: others).map Subtype.val).flatMap (· ++ ['\n']) :=
        hsentence.subset (by decide)
      obtain ⟨line, hline, hmem⟩ := List.mem_flatMap.mp hmem
      obtain ⟨server, -, rfl⟩ := List.mem_map.mp hline
      rcases List.mem_append.mp hmem with hmem | hmem
      · exact absurd (mem_resolver server hmem) (by decide)
      · exact absurd hmem (by decide)
    · have hresolver : (fun server : Resolver => resolver server.1) = some :=
        funext fun server => dif_pos server.2
      rw [hlines]
      show ((server :: others).map Subtype.val).filterMap resolver = _
      rw [List.filterMap_map]
      show (server :: others).filterMap (fun server : Resolver => resolver server.1) = _
      rw [hresolver, List.filterMap_some]
  empty := rfl

/-- `Orderly`, as a test. -/
def State.admits (s : State Server) : Act Server → Bool
  | .change service _ => !s.keys.contains service
  | .set written reported => (!reported || written) && (!(s.phase == .restoring) || written)
  | _ => true

theorem orderly_of_admits : s.admits a = true → Orderly s a := by
  intro h
  cases a with
  | change service servers =>
      intro hmem
      rw [State.admits, List.contains_iff_mem.mpr hmem] at h
      cases h
  | set written reported =>
      rw [State.admits, Bool.and_eq_true, Bool.or_eq_true, Bool.or_eq_true] at h
      refine ⟨fun hreported => h.1.resolve_left ?_, fun hphase => h.2.resolve_left ?_⟩
      · rw [hreported]
        decide
      · rw [hphase]
        decide
  | apply | list | get | release => trivial

/-- The second of two services is set, but the command fails. -/
def failingActs : List (Act Resolver) :=
  [.apply, .list (some "An asterisk (*)\nWi-Fi\n*Bluetooth\nEthernet\n".toList), .get true,
    .set true true, .change "Bluetooth".toList [], .get true, .set true false, .set true true,
    .set true false]

def beforeGuard (service : Text) : List Resolver :=
  if service = "Wi-Fi".toList then ["192.0.2.1".toList, "192.0.2.2".toList].filterMap resolver
  else []

def failing : State Resolver × List (Event Resolver) :=
  (machine networksetup "10.8.1.1".toList beforeGuard).outcome State.admits failingActs

theorem dns_given_back_failed :
    failing.1.dns = untouched beforeGuard failing.2 ∧
      lastListed failing.2 = ["Wi-Fi".toList, "Ethernet".toList] := by
  have hrun : (machine networksetup "10.8.1.1".toList beforeGuard).Run Orderly failingActs
      failing.2 failing.1 :=
    Machine.run_outcome (fun _ _ => orderly_of_admits) (by decide +kernel)
  have hphase : failing.1.phase = .idle := by decide +kernel
  exact ⟨(dns_given_back networksetup_documented hrun).1 hphase, by decide +kernel⟩

end Runs

end ForcedDns

end AutobricksVpn
