import ScriptVm.Text.Integer

namespace ScriptVm.CommandLine

inductive Verb where
  | run | disassemble | encode | verify
  deriving DecidableEq, Inhabited, Repr

def Verb.ofName? : String → Option Verb
  | "run" => some run
  | "disasm" => some disassemble
  | "encode" => some encode
  | "verify" => some verify
  | _ => none

inductive Setting where
  | config | verbose | help | image | entry | argument | companion | timeout | function | output
  deriving DecidableEq, Inhabited, Repr

namespace Setting

def takesValue : Setting → Bool
  | verbose | help => false
  | _ => true

def takesAnyWord (s : Setting) : Bool := s == argument

def ofLong? (verb : Option Verb) (name : String) : Option Setting :=
  match name, verb with
  | "config", _ => some config
  | "verbose", _ => some verbose
  | "help", _ => some help
  | "entry", some .run => some entry
  | "arg", some .run => some argument
  | "with", some .run => some companion
  | "timeout", some .run => some timeout
  | "function", some .encode => some function
  | "output", some .encode => some output
  | _, _ => none

def ofShort? (verb : Option Verb) (c : Char) : Option Setting :=
  match c, verb with
  | 'v', _ => some verbose
  | 'h', _ => some help
  | 'o', some .encode => some output
  | _, _ => none

end Setting

inductive Topic where
  | program
  | verb (verb : Verb)
  | help
  deriving DecidableEq, Inhabited, Repr

/-- Why there is nothing to do: the words make no sense, or they ask for help. -/
inductive Refusal where
  | usage
  | help (topic : Topic)
  deriving DecidableEq, Inhabited, Repr

def Refusal.after (verb : Verb) : Refusal → Refusal
  | usage => usage
  | help _ => help (.verb verb)

structure Given where
  config : Option String := none
  verbose : Bool := false
  image : Option String := none
  entry : Option String := none
  arguments : List String := []
  companions : List String := []
  timeout : Option Nat := none
  function : Option String := none
  output : Option String := none
  deriving DecidableEq, Inhabited, Repr

namespace Given

def once {α : Type} (old : Option α) (new : Option α) : Except Refusal (Option α) :=
  if old.isNone && new.isSome then .ok new else .error .usage

def path (value : String) : Option String := if value.isEmpty then none else some value

def add (g : Given) (s : Setting) (value : String) : Except Refusal Given :=
  match s with
  | .config => do return { g with config := ← once g.config (path value) }
  | .verbose => if g.verbose then .error .usage else .ok { g with verbose := true }
  | .help => .error (.help .program)
  | .image => do return { g with image := ← once g.image (path value) }
  | .entry => do return { g with entry := ← once g.entry (some value) }
  | .argument => .ok { g with arguments := g.arguments ++ [value] }
  | .companion =>
    if value.isEmpty then .error .usage else .ok { g with companions := g.companions ++ [value] }
  | .timeout => do return { g with timeout := ← once g.timeout (Text.unsigned? 64 value) }
  | .function => do return { g with function := ← once g.function (some value) }
  | .output => do return { g with output := ← once g.output (path value) }

end Given

inductive Word where
  | escape
  | long (name : String) (value : Option String)
  | short (cluster : List Char)
  | plain (text : String)
  deriving DecidableEq, Inhabited, Repr

def Word.ofString (s : String) : Word :=
  match s.toList with
  | ['-', '-'] => escape
  | '-' :: '-' :: cs =>
    match cs.dropWhile (· ≠ '=') with
    | '=' :: value => long (String.ofList (cs.takeWhile (· ≠ '='))) (some (String.ofList value))
    | _ => long (String.ofList cs) none
  | '-' :: c :: cs => short (c :: cs)
  | _ => plain s

def Word.mayBeValue : Word → Bool
  | plain _ => true
  | _ => false

/-- Short options in one word. An option with a value takes the rest of the word, or else waits for
the next word. -/
def addCluster (verb : Option Verb) (g : Given) : List Char → Except Refusal (Given × Option Setting)
  | [] => .ok (g, none)
  | c :: cs =>
    match Setting.ofShort? verb c with
    | none => .error .usage
    | some s =>
      if s.takesValue then
        match cs with
        | [] => .ok (g, some s)
        | '=' :: value => do return (← g.add s (String.ofList value), none)
        | value => do return (← g.add s (String.ofList value), none)
      else do addCluster verb (← g.add s "") cs

def addOption (verb : Option Verb) (g : Given) (name : String) (value : Option String) :
    Except Refusal (Given × Option Setting) :=
  match Setting.ofLong? verb name with
  | none => .error .usage
  | some s =>
    match s.takesValue, value with
    | true, none => .ok (g, some s)
    | true, some value => do return (← g.add s value, none)
    | false, none => do return (← g.add s "", none)
    | false, some _ => .error .usage

def takeValue (g : Given) (s : Setting) (word : String) : Except Refusal Given :=
  if s.takesAnyWord || (Word.ofString word).mayBeValue then g.add s word else .error .usage

def readOperands (verb : Verb) (g : Given) (waiting : Option Setting) :
    List String → Except Refusal Given
  | [] => if waiting.isSome then .error .usage else .ok g
  | word :: words =>
    match waiting with
    | some s => do readOperands verb (← takeValue g s word) none words
    | none =>
      match Word.ofString word with
      | .escape => words.foldlM (fun g w => g.add .image w) g
      | .long name value => do
        let (g, waiting) ← addOption verb g name value
        readOperands verb g waiting words
      | .short cluster => do
        let (g, waiting) ← addCluster verb g cluster
        readOperands verb g waiting words
      | .plain text => do readOperands verb (← g.add .image text) none words

inductive Command where
  | run (image : String) (companions : List String) (entry : String) (arguments : List String)
      (timeout : Nat)
  /-- Lists the instructions of an image or a blob. -/
  | disassemble (image : String)
  /-- Writes the code of one function as a blob. -/
  | encode (image function output : String)
  /-- Builds an image with all checks. -/
  | verify (image : String)
  deriving DecidableEq, Inhabited, Repr

structure Invocation where
  config : Option String := none
  verbose : Bool := false
  command : Command
  deriving DecidableEq, Inhabited, Repr

def Given.command? (g : Given) (verb : Verb) : Option Command := do
  let image ← g.image
  match verb with
  | .run => some (.run image g.companions (g.entry.getD "main") g.arguments (g.timeout.getD 0))
  | .disassemble => some (.disassemble image)
  | .encode => some (.encode image (g.function.getD "main") (← g.output))
  | .verify => some (.verify image)

def readVerb (before : Given) (verb : Verb) (words : List String) : Except Refusal Invocation := do
  let g ← (readOperands verb {} none words).mapError (Refusal.after verb)
  match g.command? verb with
  | some command =>
    let config := g.config.orElse fun _ => before.config
    return { config, verbose := before.verbose || g.verbose, command }
  | none => .error .usage

/-- Help is asked for by a verb of its own, with or without the verb it is wanted for. -/
def readHelp : List String → Refusal
  | [] => .help .program
  | ["help"] => .help .help
  | [name] =>
    match Verb.ofName? name with
    | some verb => .help (.verb verb)
    | none => .usage
  | _ => .usage

def readWords (g : Given) (waiting : Option Setting) : List String → Except Refusal Invocation
  | [] => .error .usage
  | word :: words =>
    match waiting with
    | some s => do readWords (← takeValue g s word) none words
    | none =>
      match Word.ofString word with
      | .escape => .error .usage
      | .long name value => do
        let (g, waiting) ← addOption none g name value
        readWords g waiting words
      | .short cluster => do
        let (g, waiting) ← addCluster none g cluster
        readWords g waiting words
      | .plain text =>
        match Verb.ofName? text with
        | some verb => readVerb g verb words
        | none => .error (if text == "help" then readHelp words else .usage)

/-- Reads a command line: a verb with its operands and options, two of which may also stand before
it. Command lines belong to the outer layer: nothing that runs code refers to them. -/
def Invocation.read (words : List String) : Except Refusal Invocation := readWords {} none words

end ScriptVm.CommandLine
