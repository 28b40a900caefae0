import ExprOpt.Compilation
import ExprOpt.Text.Quoted

/-!
# The command line

What the program does with its arguments, as a pure function: options and at most one expression, in
any order. The first argument that is wrong, or that asks for the version or for help, decides.
-/

namespace ExprOpt.CommandLine

/-- What the program leaves behind. -/
structure Outcome where
  exit : Nat := 0
  stdout : String := ""
  stderr : String := ""
  deriving DecidableEq, Repr, Inhabited

/-- The switches. -/
inductive Switch where
  | draw
  | noFold
  | noSimplify
  | noHoist
  | version
  | help
  deriving DecidableEq, Repr, Inhabited

namespace Switch

/-- The switch with a given name. -/
def ofName? : String → Option Switch
  | "draw" => some .draw
  | "no-fold" => some .noFold
  | "no-rewrite" => some .noSimplify
  | "no-cse" => some .noHoist
  | "version" => some .version
  | "help" => some .help
  | _ => none

/-- The switch with a given letter. -/
def ofLetter? : Char → Option Switch
  | 'd' => some .draw
  | 'V' => some .version
  | 'h' => some .help
  | _ => none

end Switch

/-- The forms of an argument. -/
inductive Argument where
  /-- Two dashes alone: only expressions follow. -/
  | separator
  /-- Two dashes and a name, perhaps with a value after an equals sign. -/
  | long (name : String) (value : Option String)
  /-- A dash and letters. -/
  | letters (cs : List Char)
  /-- Anything else. -/
  | plain
  deriving DecidableEq, Repr, Inhabited

/-- The form of an argument. -/
def Argument.ofChars : List Char → Argument
  | ['-', '-'] => .separator
  | '-' :: '-' :: cs =>
    let name := String.ofList (cs.takeWhile (· ≠ '='))
    match cs.dropWhile (· ≠ '=') with
    | [] => .long name none
    | _ :: value => .long name (some (String.ofList value))
  | '-' :: c :: cs => .letters (c :: cs)
  | _ => .plain

/-- The settings gathered so far. -/
structure Settings where
  switches : List Switch := []
  capacity : Option Nat := none
  expression : Option String := none
  deriving DecidableEq, Repr, Inhabited

/-- What the arguments ask for. -/
inductive Request where
  | compile (source : String) (options : Options)
  | version
  | help
  | misuse
  deriving DecidableEq, Repr, Inhabited

namespace Settings

/-- The request that the settings amount to. -/
def request (s : Settings) : Request :=
  .compile (s.expression.getD "")
    { capacity := s.capacity.getD defaultCapacity
      fold := .noFold ∉ s.switches
      simplify := .noSimplify ∉ s.switches
      hoist := .noHoist ∉ s.switches
      format := if .draw ∈ s.switches then .picture else .outline }

/-- Turns a switch on. A switch is given once at most, and some switches settle the request. -/
def turnOn (s : Settings) (w : Switch) : Except Request Settings :=
  match w with
  | .version => .error .version
  | .help => .error .help
  | _ => if w ∈ s.switches then .error .misuse else .ok { s with switches := w :: s.switches }

/-- Takes the expression. There is one at most. -/
def takeExpression (s : Settings) (source : String) : Except Request Settings :=
  match s.expression with
  | none => .ok { s with expression := some source }
  | some _ => .error .misuse

/-- The largest capacity that can be asked for. -/
def maxCapacity : Nat := 0xffffffffffffffff

/-- The capacity that a text spells: digits after an optional plus. -/
def capacity? (value : String) : Option Nat :=
  let digits :=
    match value.toList with
    | '+' :: cs => cs
    | cs => cs
  if digits.isEmpty || digits.any (!·.isDigit) then none
  else
    let n := Grammar.decimal digits
    if n ≤ maxCapacity then some n else none

/-- Takes the capacity. It is given once at most. -/
def takeCapacity (s : Settings) (value : String) : Except Request Settings :=
  match s.capacity, capacity? value with
  | none, some n => .ok { s with capacity := some n }
  | _, _ => .error .misuse

/-- Takes letters after a dash, one by one. -/
def takeLetters (s : Settings) (cs : List Char) : Except Request Settings :=
  cs.foldlM
    (fun s c =>
      match Switch.ofLetter? c with
      | some w => s.turnOn w
      | none => .error .misuse) s

/-- Takes an argument that stands for itself. While there is no expression, an argument that is not
made of known options is one, even if it starts with a dash. -/
def take (s : Settings) (arg : String) : Except Request Settings :=
  match Argument.ofChars arg.toList with
  | .letters cs =>
    if s.expression.isNone && cs.any (Switch.ofLetter? · |>.isNone) then s.takeExpression arg
    else s.takeLetters cs
  | .long name value =>
    match Switch.ofName? name, value with
    | some w, none => s.turnOn w
    | some _, some _ => .error .misuse
    | none, _ => s.takeExpression arg
  | _ => s.takeExpression arg

end Settings

/-- Reads the arguments from left to right. -/
def scan (s : Settings) : List String → Except Request Settings
  | [] => .ok s
  | arg :: rest =>
    match Argument.ofChars arg.toList, rest with
    | .separator, rest => rest.foldlM Settings.takeExpression s
    | .long "capacity" none, value :: rest => do scan (← s.takeCapacity value) rest
    | .long "capacity" none, [] => .error .misuse
    | .long "capacity" (some value), rest => do scan (← s.takeCapacity value) rest
    | _, rest => do scan (← s.take arg) rest

/-- The request that arguments make. -/
def request (args : List String) : Request :=
  match scan {} args with
  | .ok s => s.request
  | .error r => r

/-- The version of the program. -/
def versionText : String := "prune 0.1.0\n"

/-- How to use the program. -/
def usageText : String :=
  "Usage: prune [-d] [--capacity NODES] [--no-fold] [--no-rewrite] [--no-cse] [EXPRESSION]\n"

/-- The causes of a failure, numbered if there are several. -/
def causesText (causes : List String) : String :=
  match causes with
  | [cause] => "    " ++ cause ++ "\n"
  | causes =>
    String.join (causes.zipIdx.map fun (cause, i) => "    " ++ toString i ++ ": " ++ cause ++ "\n")

/-- What is written about an expression that does not compile. -/
def failureText (source : String) (e : Error) : String :=
  "Error: failed to compile " ++ Text.quote source ++ "\n\nCaused by:\n" ++ causesText e.causes

/-- Does what is asked for. -/
def Request.serve : Request → Outcome
  | .compile source options =>
    match ExprOpt.compile source options with
    | .ok c => { stdout := c.render options.format }
    | .error e => { exit := 1, stderr := failureText source e }
  | .version => { stdout := versionText }
  | .help => { stdout := usageText }
  | .misuse => { exit := 2, stderr := usageText }

/-- What the program does with its arguments. -/
def run (args : List String) : Outcome := (request args).serve

end ExprOpt.CommandLine
