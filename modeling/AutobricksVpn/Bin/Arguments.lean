/-
# `AutobricksVpn.Bin.Arguments` — the command line of the launchers

`parse_arguments` of `src/bin/common/mod.rs`, for both programs: `vpn-server`
offers `--config`, `vpn-client` also `--user` and `--pass`.  An option and its
value are written in two arguments or in one, with `=` between them, and the two
spellings have arms of their own.

| | `--config V` | `--config=V` |
| :-- | :-- | :-- |
| given before | refused | refused |
| the value taken | `V` | `trim_start_matches("--config=")` of the argument |

`trim_start_matches` takes away the text as often as it stands there, not once:
a value that begins with `--config=` itself loses that too
(`spellings_agree_iff`).
-/
import AutobricksVpn.Config.Text

namespace AutobricksVpn

/-! ## `trim_start_matches` -/

namespace Text

/-- `trim_start_matches`, for a text that is not empty. -/
def trimStartMatches (start t : Text) : Text :=
  if _h : start ≠ [] ∧ start.isPrefixOf t then trimStartMatches start (t.drop start.length) else t
termination_by t.length
decreasing_by
  have := List.length_pos_iff.mpr _h.1
  have := (List.isPrefixOf_iff_prefix.mp _h.2).length_le
  rw [List.length_drop]
  omega

theorem trimStartMatches_of_not {start t : Text} (h : ¬ start.isPrefixOf t) :
    trimStartMatches start t = t := by
  rw [trimStartMatches, dif_neg fun hp => h hp.2]

theorem trimStartMatches_append {start : Text} (hstart : start ≠ []) (t : Text) :
    trimStartMatches start (start ++ t) = trimStartMatches start t := by
  rw [trimStartMatches, dif_pos ⟨hstart, List.isPrefixOf_iff_prefix.mpr (List.prefix_append _ _)⟩,
    List.drop_left]

theorem length_trimStartMatches_le (start t : Text) :
    (trimStartMatches start t).length ≤ t.length := by
  fun_induction trimStartMatches start t with
  | case1 t h ih => exact Nat.le_trans ih (by rw [List.length_drop]; omega)
  | case2 t h => exact Nat.le_refl _

/-- What begins with the text gets shorter. -/
theorem trimStartMatches_ne {start t : Text} (hstart : start ≠ []) (h : start.isPrefixOf t) :
    trimStartMatches start t ≠ t := by
  obtain ⟨u, rfl⟩ := List.isPrefixOf_iff_prefix.mp h
  intro heq
  have hlen := congrArg List.length heq
  have hle := length_trimStartMatches_le start u
  have hpos := List.length_pos_iff.mpr hstart
  rw [trimStartMatches_append hstart, List.length_append] at hlen
  omega

end Text

namespace Bin

/-! ## The arguments -/

inductive Command where
  | help
  | run (config : Text) (user password : Option Text)
  deriving DecidableEq

/-- The variables of the loop. -/
structure Slots where
  config : Option Text
  user : Option Text
  password : Option Text
  deriving DecidableEq

def Slots.empty : Slots := ⟨none, none, none⟩

/-- How the loop ends, if not with an error. -/
inductive Parsed where
  | help
  | slots (s : Slots)
  deriving DecidableEq

/-- The loop over the arguments. -/
def readArguments (client : Bool) : List Text → Slots → Except String Parsed
  | [], s => .ok (.slots s)
  | argument :: rest, s =>
      if argument = "-h".toList ∨ argument = "--help".toList then .ok .help
      else if argument = "-c".toList ∨ argument = "--config".toList then
        if s.config.isSome then .error "--config may only be specified once"
        else
          match rest with
          | [] => .error (String.ofList argument ++ " requires a file path")
          | value :: rest =>
              if value = [] then .error "--config path must not be empty"
              else readArguments client rest { s with config := some value }
      else if "--config=".toList.isPrefixOf argument then
        if s.config.isSome then .error "--config may only be specified once"
        else
          let value := Text.trimStartMatches "--config=".toList argument
          if value = [] then .error "--config path must not be empty"
          else readArguments client rest { s with config := some value }
      else if client ∧ (argument = "--user".toList ∨ argument = "--pass".toList) then
        match rest with
        | [] => .error (String.ofList argument ++ " requires a value")
        | value :: rest =>
            if value = [] then .error (String.ofList argument ++ " must not be empty")
            else if argument = "--user".toList then
              if s.user.isSome then .error (String.ofList argument ++ " may only be specified once")
              else readArguments client rest { s with user := some value }
            else
              if s.password.isSome then
                .error (String.ofList argument ++ " may only be specified once")
              else readArguments client rest { s with password := some value }
      else if client ∧ "--user=".toList.isPrefixOf argument then
        if s.user.isSome then .error "--user may only be specified once"
        else
          let value := Text.trimStartMatches "--user=".toList argument
          if value = [] then .error "--user must not be empty"
          else readArguments client rest { s with user := some value }
      else if client ∧ "--pass=".toList.isPrefixOf argument then
        if s.password.isSome then .error "--pass may only be specified once"
        else
          let value := Text.trimStartMatches "--pass=".toList argument
          if value = [] then .error "--pass must not be empty"
          else readArguments client rest { s with password := some value }
      else .error ("unknown argument: " ++ String.ofList argument)

/-- What is done with the variables after the loop. -/
def Slots.command (client : Bool) (s : Slots) : Except String Command :=
  if s.user.isSome ≠ s.password.isSome then .error "--user and --pass must be provided together"
  else if client then .ok (.run (s.config.getD "config/client.ini".toList) s.user s.password)
  else
    match s.config with
    | none => .error "missing required option: --config <FILE>"
    | some config => .ok (.run config s.user s.password)

def Parsed.command (client : Bool) : Parsed → Except String Command
  | .help => .ok .help
  | .slots s => s.command client

def parseArguments (arguments : List Text) (client : Bool) : Except String Command :=
  (readArguments client arguments .empty).bind (Parsed.command client)

/-! ## The options -/

inductive LaunchOption where
  | config
  | user
  | pass
  deriving DecidableEq

namespace LaunchOption

def name : LaunchOption → Text
  | .config => "--config".toList
  | .user => "--user".toList
  | .pass => "--pass".toList

/-- Both programs have `--config`, only the client has the other two. -/
def offered (client : Bool) : LaunchOption → Bool
  | .config => true
  | .user | .pass => client

def get : LaunchOption → Slots → Option Text
  | .config, s => s.config
  | .user, s => s.user
  | .pass, s => s.password

def set : LaunchOption → Slots → Text → Slots
  | .config, s, value => { s with config := some value }
  | .user, s, value => { s with user := some value }
  | .pass, s, value => { s with password := some value }

/-- The error when the option was given before. -/
def once (option : LaunchOption) : String :=
  String.ofList option.name ++ " may only be specified once"

/-- The error when the value is empty. -/
def emptyValue : LaunchOption → String
  | .config => "--config path must not be empty"
  | .user => "--user must not be empty"
  | .pass => "--pass must not be empty"

/-- What the second spelling begins with. -/
def joint (option : LaunchOption) : Text := option.name ++ ['=']

/-- `{option}={value}`. -/
def joined (option : LaunchOption) (value : Text) : Text := option.joint ++ value

@[simp] theorem get_set (option : LaunchOption) (s : Slots) (value : Text) :
    option.get (option.set s value) = some value := by cases option <;> rfl

theorem get_set_of_ne {option other : LaunchOption} (h : other ≠ option) (s : Slots)
    (value : Text) : other.get (option.set s value) = other.get s := by
  cases option <;> cases other <;> first | rfl | exact absurd rfl h

theorem joint_ne_nil (option : LaunchOption) : option.joint ≠ [] := by
  cases option <;> exact List.append_ne_nil_of_right_ne_nil _ (List.cons_ne_nil _ _)

theorem joined_ne (option : LaunchOption) (value : Text) {argument : Text} (h : '=' ∉ argument) :
    option.joined value ≠ argument := by
  rintro rfl
  exact h (List.mem_append_left _ (List.mem_append_right _ (List.mem_singleton_self _)))

theorem joint_isPrefixOf (option : LaunchOption) (value : Text) :
    option.joint.isPrefixOf (option.joined value) = true :=
  List.isPrefixOf_iff_prefix.mpr (List.prefix_append _ _)

/-- Neither of two options begins like the other. -/
theorem not_joint_isPrefixOf {option o : LaunchOption} (h : o ≠ option) (value : Text) :
    ¬ o.joint.isPrefixOf (option.joined value) := by
  intro hp
  have ho := List.isPrefixOf_iff_prefix.mp hp
  have hoption : option.joint <+: option.joined value := List.prefix_append _ _
  have hor := List.prefix_or_prefix_of_prefix ho hoption
  revert h hor
  cases option <;> cases o <;> decide

end LaunchOption

/-- What the option is in a command that runs. -/
def LaunchOption.value : LaunchOption → Command → Option Text
  | _, .help => none
  | .config, .run path _ _ => some path
  | .user, .run _ id _ => id
  | .pass, .run _ _ secret => secret

/-- No variable that is set is set again. -/
def Slots.Kept (s s' : Slots) : Prop :=
  ∀ option : LaunchOption, ∀ value, option.get s = some value → option.get s' = some value

theorem Slots.Kept.refl (s : Slots) : s.Kept s := fun _ _ h => h

theorem Slots.Kept.trans {s s' s'' : Slots} (h : s.Kept s') (h' : s'.Kept s'') : s.Kept s'' :=
  fun option value hv => h' option value (h option value hv)

theorem Slots.kept_set {option : LaunchOption} {s : Slots} (h : option.get s = none)
    (value : Text) : s.Kept (option.set s value) := by
  intro other v hv
  by_cases ho : other = option
  · rw [ho, h] at hv
    exact nomatch hv
  · rw [LaunchOption.get_set_of_ne ho, hv]

/-! ## A turn of the loop -/

section Turns

variable {client : Bool} {argument value : Text} {rest : List Text} {s : Slots}

/-- An argument that takes the next one for its value. -/
def takesValue (client : Bool) (argument : Text) : Prop :=
  argument = "-c".toList ∨ argument = "--config".toList ∨
    client ∧ (argument = "--user".toList ∨ argument = "--pass".toList)

theorem read_help (h : argument = "-h".toList ∨ argument = "--help".toList) :
    readArguments client (argument :: rest) s = .ok .help := by
  rw [readArguments.eq_def]
  exact if_pos h

theorem read_separate {option : LaunchOption} (ho : option.offered client) (hvalue : value ≠ []) :
    readArguments client (option.name :: value :: rest) s =
      if (option.get s).isSome then .error (option.once)
      else readArguments client rest (option.set s value) := by
  rw [readArguments.eq_def]
  cases option with
  | config =>
    refine (if_neg (by decide)).trans ((if_pos (by decide)).trans ?_)
    simp only [if_neg hvalue]
    rfl
  | user =>
    refine (if_neg (by decide)).trans ((if_neg (by decide)).trans ((if_neg (by decide)).trans
      ((if_pos ⟨ho, by decide⟩).trans ?_)))
    simp only [if_neg hvalue]
    exact if_pos rfl
  | pass =>
    refine (if_neg (by decide)).trans ((if_neg (by decide)).trans ((if_neg (by decide)).trans
      ((if_pos ⟨ho, by decide⟩).trans ?_)))
    simp only [if_neg hvalue]
    exact if_neg (by decide)

theorem read_joined {option : LaunchOption} (ho : option.offered client) (value : Text) :
    readArguments client (option.joined value :: rest) s =
      if (option.get s).isSome then .error option.once
      else if Text.trimStartMatches option.joint value = [] then .error option.emptyValue
      else readArguments client rest
        (option.set s (Text.trimStartMatches option.joint value)) := by
  have hne {argument : Text} (h : '=' ∉ argument) := option.joined_ne value h
  have hhelp : ¬ (option.joined value = "-h".toList ∨ option.joined value = "--help".toList) :=
    not_or.mpr ⟨hne (by decide), hne (by decide)⟩
  have hconfig : ¬ (option.joined value = "-c".toList ∨ option.joined value = "--config".toList) :=
    not_or.mpr ⟨hne (by decide), hne (by decide)⟩
  have hlogin : ¬ (client = true ∧
      (option.joined value = "--user".toList ∨ option.joined value = "--pass".toList)) :=
    fun h => h.2.elim (hne (by decide)) (hne (by decide))
  rw [← Text.trimStartMatches_append option.joint_ne_nil, readArguments.eq_def]
  refine (if_neg hhelp).trans ((if_neg hconfig).trans ?_)
  cases option with
  | config => exact if_pos (LaunchOption.joint_isPrefixOf .config value)
  | user =>
    refine (if_neg (LaunchOption.not_joint_isPrefixOf (o := .config) (by decide) value)).trans
      ((if_neg hlogin).trans ?_)
    exact if_pos ⟨ho, LaunchOption.joint_isPrefixOf .user value⟩
  | pass =>
    refine (if_neg (LaunchOption.not_joint_isPrefixOf (o := .config) (by decide) value)).trans
      ((if_neg hlogin).trans ((if_neg fun h => ?_).trans ?_))
    · exact LaunchOption.not_joint_isPrefixOf (o := .user) (by decide) value h.2
    · exact if_pos ⟨ho, LaunchOption.joint_isPrefixOf .pass value⟩

/-- What a turn can do, whatever stands behind what it looks at. -/
inductive Turn (client : Bool) (arguments : List Text) (s : Slots) : Prop
  | stops (r : Except String Parsed) (hr : ∀ s', r ≠ .ok (.slots s'))
      (h : ∀ more, readArguments client (arguments ++ more) s = r)
  | waits (option : Text) (harguments : arguments = [option]) (htakes : takesValue client option)
      (h : ∀ s', readArguments client arguments s ≠ .ok (.slots s'))
  | through (front rest : List Text) (s' : Slots) (harguments : arguments = front ++ rest)
      (hfront : front ≠ []) (hkept : s.Kept s')
      (h : ∀ more, readArguments client (front ++ more) s = readArguments client more s')

/-- An option that finds its value in the arguments at the front. -/
theorem turn_of_read {front : List Text} {option : LaunchOption} {once empty : String}
    {isEmpty : Prop} [Decidable isEmpty] (hfront : front ≠ [])
    (hread : ∀ more, readArguments client (front ++ more) s =
      if (option.get s).isSome then .error once
      else if isEmpty then .error empty
      else readArguments client more (option.set s value)) :
    Turn client (front ++ rest) s := by
  have hall (more : List Text) := hread (rest ++ more)
  simp only [← List.append_assoc] at hall
  cases hslot : option.get s with
  | some v =>
    simp only [hslot, Option.isSome_some, if_true] at hall
    exact .stops (.error once) (fun _ => nofun) hall
  | none =>
    simp only [hslot, Option.isSome_none, Bool.false_eq_true, if_false] at hread hall
    by_cases hempty : isEmpty
    · exact .stops (.error empty) (fun _ => nofun) fun more => (hall more).trans (if_pos hempty)
    · exact .through front rest _ rfl hfront (Slots.kept_set hslot value)
        fun more => (hread more).trans (if_neg hempty)

theorem turn_joined (option : LaunchOption) (ho : option.offered client)
    (h : option.joint.isPrefixOf argument) : Turn client (argument :: rest) s := by
  obtain ⟨value, rfl⟩ := List.isPrefixOf_iff_prefix.mp h
  exact turn_of_read (List.cons_ne_nil (option.joined value) []) fun _ => read_joined ho value

theorem turn_config (hhelp : ¬ (argument = "-h".toList ∨ argument = "--help".toList))
    (h : argument = "-c".toList ∨ argument = "--config".toList) :
    Turn client (argument :: rest) s := by
  have hread (more : List Text) := readArguments.eq_def client (argument :: more) s
  simp only [if_neg hhelp, if_pos h] at hread
  rcases rest with _ | ⟨value, rest⟩
  · refine .waits argument rfl (h.elim .inl fun h => .inr (.inl h)) fun s' => ?_
    rw [hread]
    split <;> exact nofun
  · exact @turn_of_read _ _ rest _ [argument, value] .config _ _ _ _ (List.cons_ne_nil _ _)
      fun more => hread (value :: more)

theorem turn_login (option : LaunchOption) (h : option ≠ .config) :
    Turn true (option.name :: rest) s := by
  have ho : option.offered true := by cases option <;> rfl
  rcases rest with _ | ⟨value, rest⟩
  · cases option with
    | config => exact absurd rfl h
    | user => exact .waits _ rfl (.inr (.inr ⟨rfl, .inl rfl⟩)) fun _ => nofun
    | pass => exact .waits _ rfl (.inr (.inr ⟨rfl, .inr rfl⟩)) fun _ => nofun
  by_cases hvalue : value = []
  · -- an empty value is refused before the variable is looked at
    refine .stops (.error (String.ofList option.name ++ " must not be empty")) (fun _ => nofun)
      fun more => ?_
    rw [hvalue, readArguments.eq_def]
    cases option with
    | config => exact absurd rfl h
    | user | pass => rfl
  · refine @turn_of_read _ value rest _ [option.name, value] option option.once option.emptyValue
      (value = []) _ (List.cons_ne_nil _ _) fun more => ?_
    rw [if_neg hvalue]
    exact read_separate ho hvalue

theorem turn (client : Bool) (argument : Text) (rest : List Text) (s : Slots) :
    Turn client (argument :: rest) s := by
  by_cases hhelp : argument = "-h".toList ∨ argument = "--help".toList
  · exact .stops (.ok .help) (fun _ => nofun) fun more => read_help hhelp
  by_cases hconfig : argument = "-c".toList ∨ argument = "--config".toList
  · exact turn_config hhelp hconfig
  by_cases hc : LaunchOption.config.joint.isPrefixOf argument
  · exact turn_joined .config rfl hc
  by_cases hlogin : client = true ∧ (argument = "--user".toList ∨ argument = "--pass".toList)
  · obtain ⟨rfl, rfl | rfl⟩ := hlogin
    · exact turn_login .user (by decide)
    · exact turn_login .pass (by decide)
  by_cases hu : client = true ∧ LaunchOption.user.joint.isPrefixOf argument
  · exact turn_joined .user hu.1 hu.2
  by_cases hp : client = true ∧ LaunchOption.pass.joint.isPrefixOf argument
  · exact turn_joined .pass hp.1 hp.2
  refine .stops (.error ("unknown argument: " ++ String.ofList argument)) (fun _ => nofun)
    fun more => ?_
  rw [readArguments.eq_def]
  exact (if_neg hhelp).trans ((if_neg hconfig).trans ((if_neg hc).trans ((if_neg hlogin).trans
    ((if_neg hu).trans (if_neg hp)))))

end Turns

/-! ## The loop over two lists -/

/-- The loop gets to the last argument, and that is an option without its value. -/
def EndsWaiting (client : Bool) (arguments : List Text) (s : Slots) : Prop :=
  ∃ init option s', arguments = init ++ [option] ∧ takesValue client option ∧
    readArguments client init s = .ok (.slots s')

/-- What the loop does with what follows, when it came through the arguments before. -/
def Parsed.continue (client : Bool) (rest : List Text) : Parsed → Except String Parsed
  | .help => .ok .help
  | .slots s => readArguments client rest s

/-- A turn before the last argument does not keep it from waiting. -/
theorem EndsWaiting.append {client : Bool} {front rest : List Text} {s s' : Slots}
    (hturn : ∀ more, readArguments client (front ++ more) s = readArguments client more s')
    (h : EndsWaiting client rest s') : EndsWaiting client (front ++ rest) s := by
  obtain ⟨init, last, s'', rfl, htakes, hread⟩ := h
  exact ⟨front ++ init, last, s'', (List.append_assoc ..).symm, htakes, (hturn init).trans hread⟩

theorem readArguments_append {client : Bool} {before : List Text} {s : Slots}
    (h : ¬ EndsWaiting client before s) (rest : List Text) :
    readArguments client (before ++ rest) s =
      (readArguments client before s).bind (Parsed.continue client rest) := by
  induction hn : before.length using Nat.strongRecOn generalizing before s with
  | _ n ih =>
    rcases before with _ | ⟨argument, before⟩
    · rfl
    cases turn client argument before s with
    | stops r hr hstop =>
      have hbefore := hstop []
      rw [List.append_nil] at hbefore
      rw [hstop, hbefore]
      rcases r with e | _ | s'
      · rfl
      · rfl
      · exact absurd rfl (hr s')
    | waits option harguments htakes => exact absurd ⟨[], option, s, harguments, htakes, rfl⟩ h
    | through front before s' harguments hfront _ hturn =>
      rw [harguments] at hn h ⊢
      rw [List.append_assoc, hturn, hturn]
      have hpos := List.length_pos_iff.mpr hfront
      rw [List.length_append] at hn
      exact ih before.length (by omega) (fun hw => h (hw.append hturn)) rfl

/-- The loop sets no variable twice. -/
theorem readArguments_kept {client : Bool} {arguments : List Text} {s s' : Slots}
    (h : readArguments client arguments s = .ok (.slots s')) : s.Kept s' := by
  induction hn : arguments.length using Nat.strongRecOn generalizing arguments s with
  | _ n ih =>
    rcases arguments with _ | ⟨argument, rest⟩
    · cases h
      exact .refl _
    cases turn client argument rest s with
    | stops r hr hstop =>
      have hall := hstop []
      rw [List.append_nil] at hall
      exact absurd (hall.symm.trans h) (hr s')
    | waits option harguments htakes hwaits => exact absurd h (hwaits s')
    | through front rest s₁ harguments hfront hkept hturn =>
      rw [harguments] at hn h
      have hpos := List.length_pos_iff.mpr hfront
      rw [List.length_append] at hn
      exact hkept.trans (ih rest.length (by omega) ((hturn _).symm.trans h) rfl)

theorem Slots.command_value {client : Bool} {s : Slots} {command : Command}
    (h : s.command client = .ok command) {option : LaunchOption} {value : Text}
    (hget : option.get s = some value) : option.value command = some value := by
  obtain ⟨config, user, password⟩ := s
  unfold Slots.command at h
  split_ifs at h with hpair hclient
  · cases h
    cases option with
    | config =>
      obtain rfl : config = some value := hget
      rfl
    | user | pass => exact hget
  · cases config with
    | none => exact nomatch h
    | some path =>
      cases h
      cases option <;> exact hget

/-- Whatever follows, an option that was set is in the command. -/
theorem value_of_read {client : Bool} {option : LaunchOption} {s : Slots} {value : Text}
    {after : List Text} {command : Command} (hrun : command ≠ .help)
    (h : (readArguments client after (option.set s value)).bind (Parsed.command client) =
      .ok command) : option.value command = some value := by
  rcases hread : readArguments client after (option.set s value) with e | _ | s' <;>
    rw [hread] at h
  · exact nomatch h
  · cases h
    exact absurd rfl hrun
  · exact Slots.command_value h (readArguments_kept hread option value (LaunchOption.get_set ..))

/-! ## The two spellings -/

section Spellings

variable {client : Bool} {option : LaunchOption} {value : Text} {before after : List Text}

theorem parse_append (h : ¬ EndsWaiting client before .empty) (rest : List Text) :
    parseArguments (before ++ rest) client =
      (readArguments client before .empty).bind fun parsed =>
        (parsed.continue client rest).bind (Parsed.command client) := by
  rw [parseArguments, readArguments_append h]
  cases readArguments client before .empty <;> rfl

/-- Where nothing is trimmed the two spellings go the same way. -/
theorem parse_joined (ho : option.offered client) (hvalue : value ≠ [])
    (hjoint : ¬ option.joint.isPrefixOf value) (h : ¬ EndsWaiting client before .empty) :
    parseArguments (before ++ [option.joined value] ++ after) client =
      parseArguments (before ++ [option.name, value] ++ after) client := by
  rw [List.append_assoc, List.append_assoc, parse_append h, parse_append h]
  congr 1
  funext parsed
  cases parsed with
  | help => rfl
  | slots s =>
    have heq : readArguments client (option.joined value :: after) s =
        readArguments client (option.name :: value :: after) s := by
      rw [read_joined ho, read_separate ho hvalue, Text.trimStartMatches_of_not hjoint,
        if_neg hvalue]
    exact congrArg (Except.bind · _) heq

/-- A command that runs has what the loop took for the option. -/
theorem value_of_parse (h : ¬ EndsWaiting client before .empty) {arguments : List Text}
    (hread : ∀ s, (∃ e, readArguments client arguments s = .error e) ∨
      readArguments client arguments s = readArguments client after (option.set s value))
    {command : Command} (hrun : command ≠ .help)
    (hparse : parseArguments (before ++ arguments) client = .ok command) :
    option.value command = some value := by
  rw [parse_append h] at hparse
  rcases hbefore : readArguments client before .empty with e | _ | s <;> rw [hbefore] at hparse
  · exact nomatch hparse
  · cases hparse
    exact absurd rfl hrun
  · have hrest : (readArguments client arguments s).bind (Parsed.command client) = .ok command :=
      hparse
    rcases hread s with ⟨e, he⟩ | hs
    · rw [he] at hrest
      exact nomatch hrest
    · rw [hs] at hrest
      exact value_of_read hrun hrest

theorem value_separate (ho : option.offered client) (hvalue : value ≠ [])
    (h : ¬ EndsWaiting client before .empty) {command : Command} (hrun : command ≠ .help)
    (hparse : parseArguments (before ++ [option.name, value] ++ after) client = .ok command) :
    option.value command = some value := by
  have hread (s : Slots) :
      (∃ e, readArguments client (option.name :: value :: after) s = .error e) ∨
      readArguments client (option.name :: value :: after) s =
        readArguments client after (option.set s value) := by
    rw [read_separate ho hvalue]
    split
    · exact .inl ⟨_, rfl⟩
    · exact .inr rfl
  rw [List.append_assoc] at hparse
  exact value_of_parse h hread hrun hparse

theorem value_joined (ho : option.offered client)
    (h : ¬ EndsWaiting client before .empty) {command : Command} (hrun : command ≠ .help)
    (hparse : parseArguments (before ++ [option.joined value] ++ after) client = .ok command) :
    option.value command = some (Text.trimStartMatches option.joint value) := by
  have hread (s : Slots) :
      (∃ e, readArguments client (option.joined value :: after) s = .error e) ∨
      readArguments client (option.joined value :: after) s =
        readArguments client after (option.set s (Text.trimStartMatches option.joint value)) := by
    rw [read_joined ho]
    split
    · exact .inl ⟨_, rfl⟩
    split
    · exact .inl ⟨_, rfl⟩
    · exact .inr rfl
  rw [List.append_assoc] at hparse
  exact value_of_parse h hread hrun hparse

/-- Where something is trimmed, no command that runs is the same in both spellings. -/
theorem parse_joined_ne (ho : option.offered client) (hvalue : value ≠ [])
    (hjoint : option.joint.isPrefixOf value) (h : ¬ EndsWaiting client before .empty)
    {command : Command} (hrun : command ≠ .help)
    (hparse : parseArguments (before ++ [option.name, value] ++ after) client = .ok command) :
    parseArguments (before ++ [option.joined value] ++ after) client ≠ .ok command := by
  intro hsame
  have htrim := value_joined ho h hrun hsame
  rw [value_separate ho hvalue h hrun hparse] at htrim
  exact Text.trimStartMatches_ne option.joint_ne_nil hjoint (Option.some.inj htrim).symm

end Spellings

theorem not_endsWaiting_nil (client : Bool) (s : Slots) : ¬ EndsWaiting client [] s := by
  rintro ⟨init, option, s', hnil, _⟩
  exact absurd hnil.symm (List.append_ne_nil_of_right_ne_nil _ (List.cons_ne_nil _ _))

/-- What an option needs to be accepted. -/
def LaunchOption.company : LaunchOption → List Text
  | .config => []
  | .user => ["--pass".toList, ['x']]
  | .pass => ["--user".toList, ['x']]

theorem parse_company {client : Bool} {option : LaunchOption} {value : Text}
    (ho : option.offered client) (hvalue : value ≠ []) :
    ∃ config user password, parseArguments ([] ++ [option.name, value] ++ option.company) client =
      .ok (.run config user password) := by
  have hread := @read_separate client value option.company .empty option ho hvalue
  unfold parseArguments
  cases option with
  | config =>
    refine ⟨value, none, none, ?_⟩
    exact (congrArg (Except.bind · _) hread).trans (by cases client <;> rfl)
  | user | pass =>
    obtain rfl : client = true := ho
    exact ⟨_, _, _, (congrArg (Except.bind · _) hread).trans rfl⟩

/-- **The two spellings of an option.**  They mean the same in every list of
arguments if and only if the value does not begin like the joined spelling; and
that is so for each single list with which the program would run. -/
theorem spellings_agree_iff {client : Bool} {option : LaunchOption} {value : Text}
    (ho : option.offered client) (hvalue : value ≠ []) :
    ((∀ before after, ¬ EndsWaiting client before .empty →
        (parseArguments (before ++ [option.name, value] ++ after) client).toOption =
          (parseArguments (before ++ [option.joined value] ++ after) client).toOption) ↔
      ¬ option.joint.isPrefixOf value) ∧
    ∀ before after config user password, ¬ EndsWaiting client before .empty →
      parseArguments (before ++ [option.name, value] ++ after) client =
        .ok (.run config user password) →
      ((parseArguments (before ++ [option.joined value] ++ after) client).toOption =
          some (.run config user password) ↔ ¬ option.joint.isPrefixOf value) := by
  have hagree (before after) (h : ¬ EndsWaiting client before .empty)
      (hjoint : ¬ option.joint.isPrefixOf value) :=
    @parse_joined client option value before after ho hvalue hjoint h
  have hdiffer (before after config user password) (h : ¬ EndsWaiting client before .empty)
      (hparse : parseArguments (before ++ [option.name, value] ++ after) client =
        .ok (.run config user password))
      (hjoint : option.joint.isPrefixOf value) :
      (parseArguments (before ++ [option.joined value] ++ after) client).toOption ≠
        some (.run config user password) := by
    have hne := parse_joined_ne ho hvalue hjoint h (by simp) hparse
    generalize parseArguments (before ++ [option.joined value] ++ after) client = joined at hne ⊢
    cases joined with
    | error e => exact nofun
    | ok command => exact fun hsame => hne (congrArg _ (Option.some.inj hsame))
  refine ⟨⟨fun hall hjoint => ?_, fun hjoint before after h => ?_⟩, ?_⟩
  · obtain ⟨config, user, password, hparse⟩ := parse_company ho hvalue
    have hnil := not_endsWaiting_nil client .empty
    have hsame := hall [] option.company hnil
    rw [hparse] at hsame
    exact hdiffer [] option.company config user password hnil hparse hjoint hsame.symm
  · rw [hagree before after h hjoint]
  · refine fun before after config user password h hparse =>
      ⟨fun hsame hjoint => hdiffer _ _ _ _ _ h hparse hjoint hsame, fun hjoint => ?_⟩
    rw [hagree before after h hjoint, hparse]
    rfl

theorem spellings_agree_iff_path :
    (parseArguments ([] ++ ["--config".toList, "a.ini".toList] ++ []) false).toOption =
      (parseArguments ([] ++ ["--config=a.ini".toList] ++ []) false).toOption :=
  (@spellings_agree_iff false .config "a.ini".toList rfl (by decide)).1.mpr (by decide) [] []
    (not_endsWaiting_nil false .empty)

/-- A password that begins with `--pass=`. -/
theorem joined_password_trimmed :
    ¬ EndsWaiting true [] .empty ∧
      parseArguments ([] ++ ["--pass".toList, "--pass=x".toList] ++ ["--user".toList, ['u']]) true =
        .ok (.run "config/client.ini".toList (some ['u']) (some "--pass=x".toList)) ∧
      parseArguments ([] ++ ["--pass=--pass=x".toList] ++ ["--user".toList, ['u']]) true =
        .ok (.run "config/client.ini".toList (some ['u']) (some ['x'])) := by
  refine ⟨not_endsWaiting_nil true .empty, by decide, ?_⟩
  have htrim : Text.trimStartMatches LaunchOption.pass.joint "--pass=x".toList = ['x'] :=
    (Text.trimStartMatches_append LaunchOption.pass.joint_ne_nil ['x']).trans
      (Text.trimStartMatches_of_not (by decide))
  have hread := @read_joined true ["--user".toList, ['u']] .empty .pass rfl "--pass=x".toList
  rw [htrim] at hread
  exact congrArg (Except.bind · _) hread

end Bin

end AutobricksVpn
