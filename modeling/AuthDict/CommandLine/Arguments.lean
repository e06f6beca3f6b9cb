import AuthDict.Bytes

/-!
# Command line arguments

Options are written `--name value` or `--name=value`, each once at most; `--verifiable` takes no
value. A value that stands apart does not start with a dash, unless it is one dash. Arguments are
read from left to right, and the first that cannot be used or that asks for help decides.
-/
namespace AuthDict.CommandLine

structure Options where
  config : Option String := none
  entries : Option UInt64 := none
  threads : Option UInt64 := none
  queriers : Option UInt64 := none
  verifiable : Bool := false
  commitIntervalMs : Option UInt64 := none
  save : Option String := none
  load : Option String := none
deriving DecidableEq, Repr

/-- How many entries are inserted unless told otherwise. -/
def defaultEntries : UInt64 := 1000

inductive Request where
  | help
  | badUsage
  | run (options : Options)
deriving DecidableEq, Repr

/-- A number below 2⁶⁴ in decimal digits, with a plus sign if any. -/
def number? (text : String) : Option UInt64 :=
  let digits := match text.toList with
    | '+' :: rest => rest
    | cs => cs
  if digits.isEmpty || !digits.all Char.isDigit then none else
  let n := digits.foldl (fun n c => 10 * n + (c.toNat - 48)) 0
  if n < UInt64.size then some (UInt64.ofNat n) else none

def path? (text : String) : Option String := if text.isEmpty then none else some text

/-- The value of an option that has none yet. -/
def once {α : Type} (old new : Option α) : Option α := if old.isSome then none else new

/-- The options with one more value, if the name is known, the value is good and the option new. -/
def Options.set? (o : Options) (name value : String) : Option Options :=
  match name with
  | "config" => (once o.config (path? value)).map fun v => { o with config := some v }
  | "entries" => (once o.entries (number? value)).map fun v => { o with entries := some v }
  | "threads" => (once o.threads (number? value)).map fun v => { o with threads := some v }
  | "queriers" => (once o.queriers (number? value)).map fun v => { o with queriers := some v }
  | "commit-interval-ms" =>
    (once o.commitIntervalMs (number? value)).map fun v => { o with commitIntervalMs := some v }
  | "save" => (once o.save (path? value)).map fun v => { o with save := some v }
  | "load" => (once o.load (path? value)).map fun v => { o with load := some v }
  | _ => none

/-- Whether an argument is taken for an option. -/
def looksLikeOption (arg : String) : Bool :=
  match arg.toList with
  | ['-'] => false
  | '-' :: _ => true
  | _ => false

/-- The name and the attached value of an option without its dashes. -/
def splitOption (cs : List Char) : String × Option String :=
  match cs.dropWhile (· != '=') with
  | _ :: value => (String.ofList (cs.takeWhile (· != '=')), some (String.ofList value))
  | [] => (String.ofList cs, none)

def parse (o : Options) : List String → Request
  | [] => .run o
  | arg :: rest =>
    match arg.toList with
    | ['-', '-'] => if rest.isEmpty then .run o else .badUsage
    | '-' :: '-' :: cs =>
      match splitOption cs with
      | ("help", none) => .help
      | ("verifiable", none) =>
        if o.verifiable then .badUsage else parse { o with verifiable := true } rest
      | (name, some value) =>
        match o.set? name value with
        | some o => parse o rest
        | none => .badUsage
      | (name, none) =>
        match rest with
        | [] => .badUsage
        | value :: rest =>
          if looksLikeOption value then .badUsage else
          match o.set? name value with
          | some o => parse o rest
          | none => .badUsage
    | '-' :: 'h' :: _ => .help
    | _ => .badUsage

end AuthDict.CommandLine
