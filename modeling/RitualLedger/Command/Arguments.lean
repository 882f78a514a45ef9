import RitualLedger.Command.Basic

/-!
# Arguments

A command line names a group of commands and a command in it. Then follow, in any order, the plain
arguments of the command and its options. An option starts with two dashes; its value is the next
argument, which must not look like an option, or is joined to it by an equals sign. After two dashes
alone all arguments are plain. No option may be given twice, and every argument must have the form
that the command asks for.

`Command.read` gives the command, or says why there is none: the line was misused, or it asks for
help or for the version.
-/

namespace RitualLedger

/-- Why a command line is no command. -/
inductive NoCommand where
  | misuse
  | help
  | version
deriving DecidableEq, Repr

namespace Arguments

/-- The form of an argument: which texts it takes. -/
abbrev Form := String → Bool

/-- Any text. -/
def anyText : Form := fun _ => true

/-- A text that is not empty. -/
def someText : Form := fun s => !s.isEmpty

/-- A word of 64 bits in decimal digits. -/
def word : Form := fun s => (Text.readWord s).toOption.isSome

/-- The word of 32 bits of decimal digits. Zero may have a minus. -/
def halfWordOf? (s : String) : Option UInt32 :=
  match s.toList with
  | '-' :: digits => if !digits.isEmpty && digits.all (· == '0') then some 0 else none
  | _ => (Text.readHalfWord s).toOption

/-- A word of 32 bits in decimal digits. -/
def halfWord : Form := fun s => (halfWordOf? s).isSome

/-- What arguments a command takes. -/
structure Grammar where
  /-- The plain arguments, all of which must be given. -/
  plain : List Form
  /-- The options with values. -/
  options : List (String × Form)
  /-- The options without values. -/
  flags : List String

/-- Arguments that were read. -/
structure Given where
  plain : List String
  options : List (String × String)
  flags : List String

/-- No arguments. -/
def Given.none : Given := ⟨[], [], []⟩

/-- The value of an option. -/
def Given.option? (g : Given) (name : String) : Option String := g.options.lookup name

/-- Whether a flag was given. -/
def Given.has (g : Given) (flag : String) : Bool := g.flags.contains flag

/-- Takes a plain argument. -/
def takePlain (grammar : Grammar) (g : Given) (arg : String) : Except NoCommand Given :=
  match grammar.plain[g.plain.length]? with
  | some form => if form arg then .ok { g with plain := g.plain ++ [arg] } else .error .misuse
  | none => .error .misuse

/-- Takes an option with its value. -/
def takeOption (g : Given) (name : String) (form : Form) (value : String) :
    Except NoCommand Given :=
  if (g.option? name).isSome || !form value then .error .misuse
  else .ok { g with options := g.options ++ [(name, value)] }

/-- Takes a flag. -/
def takeFlag (g : Given) (name : String) : Except NoCommand Given :=
  if g.has name then .error .misuse else .ok { g with flags := g.flags ++ [name] }

/-- Whether an argument looks like an option. A dash alone does not. -/
def looksLikeOption (arg : String) : Bool := arg.startsWith "-" && arg != "-"

/-- An option in one argument: its name, and its value if that is joined to it. -/
def splitOption (arg : String) : String × Option String :=
  let body := arg.toList.drop 2
  let name := body.takeWhile (· != '=')
  match body.drop name.length with
  | [] => (String.ofList name, .none)
  | _ :: value => (String.ofList name, some (String.ofList value))

/-- The options that a single letter asks for. -/
def shortOption (arg : String) : NoCommand :=
  if arg.startsWith "-h" then .help else .misuse

/-- Takes plain arguments only. -/
def readPlain (grammar : Grammar) (g : Given) (args : List String) : Except NoCommand Given :=
  args.foldlM (takePlain grammar) g

/-- Takes an option that stands alone, without a joined value. -/
def takeLone (grammar : Grammar) (g : Given) (name : String) : Except NoCommand Given :=
  if name = "help" then .error .help
  else if grammar.flags.contains name then takeFlag g name
  else .error .misuse

/-- Takes arguments in order. -/
def readFrom (grammar : Grammar) (g : Given) : List String → Except NoCommand Given
  | [] => .ok g
  | arg :: rest =>
    if arg = "--" then readPlain grammar g rest
    else if arg.startsWith "--" then
      let (name, joined) := splitOption arg
      match grammar.options.lookup name, joined, rest with
      | some form, some value, rest => do readFrom grammar (← takeOption g name form value) rest
      | some form, .none, value :: rest =>
        if looksLikeOption value then .error .misuse
        else do readFrom grammar (← takeOption g name form value) rest
      | some _, .none, [] => .error .misuse
      | .none, some _, _ => .error .misuse
      | .none, .none, rest => do readFrom grammar (← takeLone grammar g name) rest
    else if looksLikeOption arg then .error (shortOption arg)
    else do readFrom grammar (← takePlain grammar g arg) rest
termination_by args => args.length

/-- The arguments of a command. -/
def read (grammar : Grammar) (args : List String) : Except NoCommand Given := do
  let g ← readFrom grammar .none args
  if g.plain.length < grammar.plain.length then .error .misuse else .ok g

end Arguments

open Arguments

/-! ## The commands by name -/

/-- A command as it is named, with its grammar. -/
structure Verb where
  group : String
  name : String
  grammar : Grammar
  /-- The command of arguments that fit the grammar, if they go together. -/
  build : Given → Option Command

namespace Verb

/-- A grammar of plain arguments only. -/
def plainly (forms : List Form) : Grammar := ⟨forms, [], []⟩

/-- A word among the arguments. -/
def wordOf? (s : String) : Option UInt64 := (Text.readWord s).toOption

/-- The history of an account. -/
def history (g : Given) : Option Command :=
  match g.plain with
  | [subject] => do
    let limit ← wordOf? ((g.option? "limit").getD "20")
    some (.engine (.history subject limit))
  | _ => none

/-- A tribute. -/
def tribute (g : Given) : Option Command :=
  match g.plain with
  | [sender, receiver, amount] => do
    some (.engine (.tribute sender receiver (← wordOf? amount) (g.option? "description")))
  | _ => none

/-- The evaluation of a trigger. -/
def evaluate (g : Given) : Option Command :=
  match g.plain with
  | [ritual] => do
    let subject ← g.option? "subject"
    let trigger ← g.option? "trigger"
    let value := (g.option? "value").getD ""
    some (.engine (.evaluate ritual subject trigger value (g.has "dry-run")))
  | _ => none

/-- The completion of a task. -/
def complete (g : Given) : Option Command :=
  match g.plain with
  | [ritual, subject, index] => do
    let text := g.option? "text"
    let photo := g.option? "photo"
    if text.isSome && photo.isSome then none
    else some (.engine (.completeTask ritual subject (← wordOf? index) text photo))
  | _ => none

/-- The replay of a completion. -/
def replay (g : Given) : Option Command :=
  match g.plain with
  | [ritual, subject, index] => do some (.engine (.replayTask ritual subject (← wordOf? index)))
  | _ => none

/-- The report of a streak. -/
def streak (g : Given) : Option Command :=
  match g.plain with
  | [subject, count] => do some (.engine (.reportStreak subject (← halfWordOf? count)))
  | _ => none

/-- A command with one plain argument. -/
def one (group name : String) (command : String → Command) : Verb where
  group := group
  name := name
  grammar := plainly [anyText]
  build g := match g.plain with
    | [a] => some (command a)
    | _ => none

/-- A command with two plain arguments. -/
def two (group name : String) (command : String → String → Command) : Verb where
  group := group
  name := name
  grammar := plainly [anyText, anyText]
  build g := match g.plain with
    | [a, b] => some (command a b)
    | _ => none

/-- A command without arguments. -/
def zero (group name : String) (command : Command) : Verb :=
  ⟨group, name, plainly [], fun _ => some command⟩

/-- All commands. -/
def all : List Verb := [
  one "account" "open" fun s => .engine (.openAccount s),
  one "account" "balance" fun s => .engine (.showAccount s),
  ⟨"account", "history", ⟨[anyText], [("limit", word)], []⟩, history⟩,
  ⟨"ledger", "tribute", ⟨[anyText, anyText, word], [("description", anyText)], []⟩, tribute⟩,
  ⟨"ritual", "create", ⟨[], [("file", someText)], []⟩,
    fun g => (g.option? "file").map fun file => .engine (.createRitual file)⟩,
  one "ritual" "show" fun id => .engine (.showRitual id),
  ⟨"ritual", "evaluate",
    ⟨[anyText], [("subject", anyText), ("trigger", anyText), ("value", anyText)], ["dry-run"]⟩,
    evaluate⟩,
  one "task" "current" fun s => .engine (.currentTask s),
  ⟨"task", "complete",
    ⟨[anyText, anyText, word], [("text", anyText), ("photo", anyText)], []⟩, complete⟩,
  ⟨"task", "replay", plainly [anyText, anyText, word], replay⟩,
  two "mood" "log" fun s mood => .engine (.logMood s mood),
  ⟨"streak", "report", plainly [anyText, halfWord], streak⟩,
  one "notify" "list" fun s => .engine (.listNotifications s),
  one "notify" "read" fun id => .engine (.readNotification id),
  one "config" "get" fun name => .config (.get name),
  two "config" "set" fun name value => .config (.set name value),
  zero "config" "show" (.config .show),
  zero "config" "reset" (.config .reset)]

/-- The command of a verb with its arguments. -/
def command (v : Verb) (args : List String) : Except NoCommand Command := do
  let g ← Arguments.read v.grammar args
  match v.build g with
  | some c => .ok c
  | none => .error .misuse

end Verb

namespace Command

/-- The name and version of the program. -/
def version : String := "ritualware-cli 0.1.0"

/-- How to use the command line. -/
def usage : String :=
  String.join ("Usage: ritualware-cli <group> <command> [arguments]\n" ::
    Verb.all.map fun v => "  " ++ v.group ++ " " ++ v.name ++ "\n")

/-- What an argument in place of a name asks for. -/
def instead (arg : String) : NoCommand :=
  if arg = "--help" || arg.startsWith "-h" then .help else .misuse

/-- Whether there is a group of a name. -/
def isGroup (name : String) : Bool := Verb.all.any fun v => v.group == name

/-- The verb of a name in a group. -/
def verb? (group name : String) : Option Verb :=
  Verb.all.find? fun v => v.group == group && v.name == name

/-- What the names behind a word for help ask for. They must lead to a group, to one of its commands
or to a word for help. -/
def helpOn : List String → NoCommand
  | [] | ["help"] => .help
  | group :: rest =>
    if !isGroup group then .misuse
    else match rest with
      | [] | ["help"] => .help
      | [name] => if (verb? group name).isSome then .help else .misuse
      | _ => .misuse

/-- The command of a group. -/
def readIn (group : String) (args : List String) : Except NoCommand Command :=
  match args with
  | [] => .error .misuse
  | "help" :: names => .error (helpOn (group :: names))
  | name :: rest =>
    match verb? group name with
    | some v => v.command rest
    | none => .error (instead name)

/-- The command of a command line. -/
def read (args : List String) : Except NoCommand Command :=
  match args with
  | [] => .error .misuse
  | "help" :: names => .error (helpOn names)
  | group :: rest =>
    if isGroup group then readIn group rest
    else if group = "--version" || group.startsWith "-V" then .error .version
    else .error (instead group)

end Command

end RitualLedger
