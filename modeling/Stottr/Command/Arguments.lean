import Stottr.Output

namespace Stottr.Command

inductive Takes where
  | nothing
  | one
  | many
deriving DecidableEq, Repr

structure Switch where
  name : String
  letter : Option Char
  takes : Takes
  -- The values that it may have, unless any will do.
  among : List String
deriving DecidableEq, Repr

inductive Declined where
  | usage
  | help
  | version
deriving DecidableEq, Repr

structure Given where
  options : List (String × List String)
  plain : List String

namespace Given

def empty : Given := ⟨[], []⟩

def has (g : Given) (name : String) : Bool := g.options.any fun o => o.1 = name

def values (g : Given) (name : String) : List String :=
  (g.options.filter fun o => o.1 = name).flatMap Prod.snd

def value? (g : Given) (name : String) : Option String := (g.values name).head?

def admits (s : Switch) (value : String) : Bool :=
  value ≠ "" && (s.among.isEmpty || s.among.contains value)

def add (g : Given) (s : Switch) (values : List String) : Except Declined Given :=
  if s.takes ≠ .many ∧ g.has s.name then .error .usage
  else if s.takes ≠ .nothing ∧ (values.isEmpty ∨ !values.all (admits s)) then .error .usage
  else .ok { g with options := g.options ++ [(s.name, values)] }

def addPlain (g : Given) (value : String) : Except Declined Given :=
  if value = "" then .error .usage else .ok { g with plain := g.plain ++ [value] }

end Given

structure Pending where
  switch : Switch
  values : List String

def Given.close (g : Given) : Option Pending → Except Declined Given
  | none => .ok g
  | some p => g.add p.switch p.values

def settled (g : Given) : Given × Option Pending := (g, none)

def longOption (switches : List Switch) (g : Given) (body : List Char) :
    Except Declined (Given × Option Pending) :=
  let name := String.ofList (body.takeWhile (· ≠ '='))
  let attached := match body.dropWhile (· ≠ '=') with
    | [] => none
    | _ :: value => some (String.ofList value)
  match switches.find? fun s => s.name = name with
  | none =>
    if attached.isSome then .error .usage
    else if name = "help" then .error .help
    else .error .usage
  | some s =>
    match s.takes, attached with
    | .nothing, none => (g.add s []).map settled
    | .nothing, some _ => .error .usage
    | _, none => .ok (g, some ⟨s, []⟩)
    | _, some value => (g.add s [value]).map settled

-- Options that are letters run together; the first that takes a value takes the rest.
def letterOptions (switches : List Switch) (top : Bool) (g : Given) :
    List Char → Except Declined (Given × Option Pending)
  | [] => .ok (g, none)
  | c :: rest =>
    match switches.find? fun s => s.letter = some c with
    | none => .error (if c = 'h' then .help else if top ∧ c = 'V' then .version else .usage)
    | some s =>
      if s.takes = .nothing then
        match g.add s [] with
        | .ok g => letterOptions switches top g rest
        | .error e => .error e
      else match rest with
        | [] => .ok (g, some ⟨s, []⟩)
        | '=' :: value => (g.add s [String.ofList value]).map settled
        | value => (g.add s [String.ofList value]).map settled

-- What a level of the command line came to: all of its arguments, or the name of a subcommand with
-- the arguments after it.
inductive Level where
  | done (g : Given)
  | subcommand (g : Given) (name : String) (rest : List String)

inductive Plain where
  | subcommand
  | operand
  | refused
deriving DecidableEq, Repr

def addAll (g : Given) : List String → Except Declined Given
  | [] => .ok g
  | value :: rest =>
    match g.addPlain value with
    | .ok g => addAll g rest
    | .error e => .error e

-- Reads the arguments of one level. Where a subcommand is expected, the first argument that is
-- neither an option nor a value of one names it; after two hyphens alone, every argument stands for
-- itself.
def level (switches : List Switch) (plain : Plain) (g : Given) (pending : Option Pending) :
    List String → Except Declined Level
  | [] => (g.close pending).map .done
  | arg :: rest =>
    match arg.toList with
    | ['-', '-'] =>
      match g.close pending with
      | .error e => .error e
      | .ok g =>
        match plain, rest with
        | .operand, rest => (addAll g rest).map .done
        | .refused, [] => .ok (.done g)
        | _, _ => .error .usage
    | '-' :: '-' :: body =>
      match g.close pending with
      | .error e => .error e
      | .ok g =>
        if plain = .subcommand ∧ arg = "--version" then .error .version
        else match longOption switches g body with
          | .error e => .error e
          | .ok (g, pending) => level switches plain g pending rest
    | '-' :: c :: letters =>
      match g.close pending with
      | .error e => .error e
      | .ok g =>
        match letterOptions switches (plain = .subcommand) g (c :: letters) with
        | .error e => .error e
        | .ok (g, pending) => level switches plain g pending rest
    | _ =>
      match pending with
      | some p =>
        let p := { p with values := p.values ++ [arg] }
        if p.switch.takes = .many then level switches plain g (some p) rest
        else match g.close (some p) with
          | .error e => .error e
          | .ok g => level switches plain g none rest
      | none =>
        match plain with
        | .subcommand => .ok (.subcommand g arg rest)
        | .refused => .error .usage
        | .operand =>
          match g.addPlain arg with
          | .error e => .error e
          | .ok g => level switches plain g none rest

inductive Action where
  | expand (templates : List String) (instances : String) (format : Format) (parallel : Bool)
      (output : Option String)
  | check (files : List String)
  | templates (files : List String)
deriving Repr

structure Request where
  action : Action
  settings : Option String
  standardLibrary : Bool
  quiet : Bool
deriving Repr

def Action.inputs : Action → List String
  | .expand files instances _ _ _ => files ++ [instances]
  | .check files | .templates files => files

def sharedSwitches : List Switch := [
  ⟨"config", some 'c', .one, []⟩, ⟨"no-standard-library", none, .nothing, []⟩,
  ⟨"quiet", some 'q', .nothing, []⟩]

def templateSwitch : Switch := ⟨"templates", some 't', .many, []⟩

def expandSwitches : List Switch := [
  templateSwitch, ⟨"instances", some 'i', .one, []⟩,
  ⟨"format", some 'f', .one, ["ntriples", "json"]⟩,
  ⟨"parallel", none, .nothing, []⟩, ⟨"output", some 'o', .one, []⟩]

def switches? (subcommand : String) : Option (List Switch) :=
  match subcommand with
  | "expand" => some expandSwitches
  | "check" => some []
  | "templates" => some [templateSwitch]
  | _ => none

-- Only files to be checked are named without an option.
def plain (subcommand : String) : Plain := if subcommand = "check" then .operand else .refused

def format? (name : Option String) : Option Format :=
  match name with
  | none | some "ntriples" => some .ntriples
  | some "json" => some .json
  | some _ => none

def action? (subcommand : String) (g : Given) : Option Action :=
  match subcommand with
  | "expand" =>
    match g.value? "instances", format? (g.value? "format") with
    | some instances, some format =>
      some (.expand (g.values "templates") instances format (g.has "parallel") (g.value? "output"))
    | _, _ => none
  | "check" => if g.plain.isEmpty then none else some (.check g.plain)
  | "templates" => some (.templates (g.values "templates"))
  | _ => none

-- The arguments after a call for help may name one of the subcommands.
def helped : List String → Declined
  | [] => .help
  | [name] => if name = "help" ∨ (switches? name).isSome then .help else .usage
  | _ => .usage

-- The request that the arguments spell. The inner level prevails over the outer one, and both over
-- the environment, whose path may not be empty where it is looked at.
def Request.parse (environment : Option String) (args : List String) : Except Declined Request :=
  match level sharedSwitches .subcommand .empty none args with
  | .error e => .error e
  | .ok (.done _) => .error .usage
  | .ok (.subcommand outer name rest) =>
    match switches? name with
    | none => .error (if name = "help" then helped rest else .usage)
    | some own =>
      match level (sharedSwitches ++ own) (plain name) .empty none rest with
      | .error e => .error e
      | .ok (.subcommand _ _ _) => .error .usage
      | .ok (.done inner) =>
        let given := fun name => outer.has name || inner.has name
        if environment = some "" ∧ !(outer.has "config" && inner.has "config") then .error .usage
        else match action? name inner with
          | none => .error .usage
          | some action =>
            let settings := inner.value? "config" <|> outer.value? "config" <|> environment
            .ok ⟨action, settings, !given "no-standard-library", given "quiet"⟩

end Stottr.Command
