import Hygiene.Outcome.Display

/-!
The arguments of the command line. They are read from left to right into items, each an option with
its value or an operand; the first item that cannot be, or that asks for help, decides. An option is
written `--name value`, `--name=value`, `-n value`, `-nvalue` or `-n=value`, short options without a
value can be written as one, and behind `--` there are operands only. A check without operands is
one of the whole tree.
-/

namespace Hygiene.CommandLine

open Outcome

structure CheckArguments where
  root : Path
  config : Option Path
  paths : List Path
  bug : Option String
  commitMessage : Option Path
  format : Format
  checks : Option String
  exclude : List String
  deriving DecidableEq, Repr

inductive Topic where
  | program
  | check
  | listChecks
  | init
  | help
  deriving DecidableEq, Repr

inductive Command where
  | check (arguments : CheckArguments)
  | listChecks
  | init (force : Bool)
  | help (topic : Topic)
  | version
  | misuse
  deriving DecidableEq, Repr

inductive ValueKind where
  | none
  | text (repeatable : Bool)
  | path
  | format
  deriving DecidableEq, Repr

def ValueKind.accepts (kind : ValueKind) (value : String) : Bool :=
  match kind with
  | none | text _ => true
  | path => !value.isEmpty
  | format => (Format.ofName? value).isSome

structure Opt where
  name : String
  letter : Option Char
  value : ValueKind
  deriving DecidableEq, Repr

def Opt.takesValue (o : Opt) : Bool := o.value != .none

def commonOptions : List Opt :=
  [⟨"verbose", some 'v', .none⟩, ⟨"config", some 'c', .path⟩, ⟨"help", some 'h', .none⟩]

def programOptions : List Opt := ⟨"version", some 'V', .none⟩ :: commonOptions

def checkOptions : List Opt :=
  [⟨"root", some 'r', .path⟩, ⟨"bug", none, .text false⟩, ⟨"commit-message", none, .path⟩,
    ⟨"format", some 'f', .format⟩, ⟨"checks", none, .text false⟩,
    ⟨"exclude", some 'e', .text true⟩] ++ commonOptions

def initOptions : List Opt := ⟨"force", none, .none⟩ :: commonOptions

/-! ### Items -/

inductive Item where
  | option (option : Opt) (value : String)
  | operand (text : String)
  | fault
  deriving DecidableEq, Repr

inductive Expecting where
  | anything
  | valueOf (option : Opt)
  | operand
  deriving DecidableEq, Repr

def Expecting.after (o : Opt) : Expecting := if o.takesValue then .valueOf o else .anything

/-- The items of an argument that begins with two dashes, which are left out here. -/
def longItems (options : List Opt) (body : List Char) : List Item × Expecting :=
  let name := String.ofList (body.takeWhile (· != '='))
  match options.find? fun o => o.name == name with
  | none => ([.fault], .anything)
  | some o =>
      match body.dropWhile (· != '='), o.takesValue with
      | [], true => ([], .valueOf o)
      | [], false => ([.option o ""], .anything)
      | _ :: value, true => ([.option o (String.ofList value)], .anything)
      | _ :: _, false => ([.fault], .anything)

def shortItems (options : List Opt) : List Char → List Item × Expecting
  | [] => ([], .anything)
  | letter :: rest =>
      match options.find? fun o => o.letter == some letter with
      | none => ([.fault], .anything)
      | some o =>
          if o.takesValue then
            match rest with
            | [] => ([], .valueOf o)
            | '=' :: value => ([.option o (String.ofList value)], .anything)
            | value => ([.option o (String.ofList value)], .anything)
          else
            let (items, expecting) := shortItems options rest
            (.option o "" :: items, expecting)

/-- Whether an argument looks like an option. A single dash does not. -/
def looksLikeOption (argument : String) : Bool :=
  match argument.toList with
  | '-' :: _ :: _ => true
  | _ => false

/-- The items of arguments. With `untilOperand`, reading stops at the first operand, and the
arguments from there on are left. -/
def scan (options : List Opt) (untilOperand : Bool) :
    Expecting → List String → List Item × List String
  | .valueOf _, [] => ([.fault], [])
  | _, [] => ([], [])
  | .operand, argument :: rest =>
      let (items, left) := scan options untilOperand .operand rest
      (.operand argument :: items, left)
  | .valueOf o, argument :: rest =>
      if looksLikeOption argument then ([.fault], [])
      else
        let (items, left) := scan options untilOperand .anything rest
        (.option o argument :: items, left)
  | .anything, argument :: rest =>
      match argument.toList with
      | ['-', '-'] => scan options untilOperand .operand rest
      | '-' :: '-' :: body =>
          let (first, expecting) := longItems options body
          let (items, left) := scan options untilOperand expecting rest
          (first ++ items, left)
      | '-' :: letter :: letters =>
          let (first, expecting) := shortItems options (letter :: letters)
          let (items, left) := scan options untilOperand expecting rest
          (first ++ items, left)
      | _ =>
          if untilOperand then ([], argument :: rest)
          else
            let (items, left) := scan options untilOperand .anything rest
            (.operand argument :: items, left)

/-! ### Meaning -/

structure Given where
  options : List (String × String)
  operands : List String
  deriving DecidableEq, Repr

namespace Given

def value? (g : Given) (name : String) : Option String := g.options.lookup name

def values (g : Given) (name : String) : List String :=
  (g.options.filter fun o => o.1 == name).map (·.2)

def has (g : Given) (name : String) : Bool := (g.value? name).isSome

end Given

def Opt.mayFollow (o : Opt) (g : Given) : Bool := o.value == .text true || !g.has o.name

/-- Takes items for what they mean, or says what to do instead. -/
def gather (topic : Topic) (takesOperands : Bool) (g : Given) : List Item → Except Command Given
  | [] => .ok g
  | .fault :: _ => .error .misuse
  | .operand text :: rest =>
      if takesOperands && !text.isEmpty then
        gather topic takesOperands { g with operands := g.operands ++ [text] } rest
      else .error .misuse
  | .option o value :: rest =>
      if o.value.accepts value && o.mayFollow g then
        if o.name = "help" then .error (.help topic)
        else if o.name = "version" then .error .version
        else gather topic takesOperands { g with options := g.options ++ [(o.name, value)] } rest
      else .error .misuse

def givenTo (topic : Topic) (options : List Opt) (takesOperands : Bool) (arguments : List String) :
    Except Command Given :=
  gather topic takesOperands ⟨[], []⟩ (scan options false .anything arguments).1

/-- The command that checks a change. A field that refers to issues and a commit message to take it
from exclude each other, even if the field comes from the environment. -/
def checkCommand (bugVariable : Option String) (program g : Given) : Command :=
  let bug := (g.value? "bug").or bugVariable
  if bug.isSome && g.has "commit-message" then .misuse
  else
    .check
      { root := ⟨(g.value? "root").getD "."⟩
        config := ((g.value? "config").or (program.value? "config")).map Path.mk
        paths := g.operands.map Path.mk
        bug
        commitMessage := (g.value? "commit-message").map Path.mk
        format := ((g.value? "format").bind Format.ofName?).getD .text
        checks := g.value? "checks"
        exclude := g.values "exclude" }

def helpCommand : List String → Command
  | [] => .help .program
  | ["check"] => .help .check
  | ["list-checks"] => .help .listChecks
  | ["init"] => .help .init
  | ["help"] => .help .help
  | _ => .misuse

/-- What arguments ask for. `bugVariable` is the field that refers to issues, as the environment
gives it. -/
def Command.ofArguments (bugVariable : Option String) (arguments : List String) : Command :=
  let (items, left) := scan programOptions true .anything arguments
  match gather .program false ⟨[], []⟩ items with
  | .error command => command
  | .ok program =>
      match left with
      | "check" :: rest =>
          match givenTo .check checkOptions true rest with
          | .error command => command
          | .ok g => checkCommand bugVariable program g
      | "list-checks" :: rest =>
          match givenTo .listChecks commonOptions false rest with
          | .error command => command
          | .ok _ => .listChecks
      | "init" :: rest =>
          match givenTo .init initOptions false rest with
          | .error command => command
          | .ok g => .init (g.has "force")
      | "help" :: rest => helpCommand rest
      | _ => .misuse

end Hygiene.CommandLine
