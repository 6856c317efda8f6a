import Keypad.CommandLine.Arguments
import Keypad.CommandLine.Report
import Keypad.Loading
import Keypad.Name.Index

/-!
A run of the command line: from the arguments and the files to an exit code and two texts. Arguments
that make no sense are found out first, then a policy that cannot be loaded, then what goes wrong in
the command itself.
-/
namespace Keypad.CommandLine

open Json (Value)

/-- Why a run fails after its arguments have been read. -/
inductive RunFault where
  | failure (reason : Failure)
  | nothingToMatch
  deriving DecidableEq, Repr

namespace RunFault

/-- What is told about a fault, with its cause beneath it. -/
def report : RunFault → Text
  | .nothingToMatch => "Error: nothing to match: pass --name and/or --number\n".toList
  | .failure reason =>
    "Error: ".toList ++ reason.message ++
      (match reason.cause? with
      | some cause => "\n\nCaused by:\n    ".toList ++ cause
      | none => []) ++ ['\n']

end RunFault

structure Outcome where
  code : Nat
  stdout : Text
  stderr : Text
  deriving DecidableEq, Repr

def Options.region (options : Options) : Region :=
  let detected := Region.detect options.country none
  if options.numberingPlan then detected.withNumberingPlan true else detected

def Options.policy (options : Options) (files : FileSystem) (codecs : Codecs := .builtin) :
    Except Failure Policy :=
  match options.policyPath with
  | some path => Policy.load files path codecs
  | none => .ok .standard

/-- A report in the form that the options ask for. -/
def Options.present (options : Options) (lines : List Text) (value : Value)
    (codecs : Codecs := .builtin) : Text :=
  if options.json then codecs.json.pretty value ++ ['\n'] else ofLines lines

/-- Carries out a command under a policy, with a region installed. -/
def Command.execute (command : Command) (options : Options) (files : FileSystem)
    (installed : InstalledRegion) (policy : Policy) (codecs : Codecs := .builtin) :
    Except RunFault Text :=
  match command with
  | .tokens name =>
    let tokens := Name.tokens .latin name
    .ok (options.present [Text.join [' '] tokens] (textArray tokens) codecs)
  | .prefixes name =>
    let entries := Name.index .latin policy name
    .ok (options.present entries (textArray entries) codecs)
  | .number raw =>
    let report := NumberReport.of options.region raw
    .ok (options.present report.lines report.value codecs)
  | .compare query name? number? =>
    if name?.isNone ∧ number?.isNone then .error .nothingToMatch
    else
      let matcher := (Matcher.new installed .latin query).withPolicy policy
      let report := MatchReport.of matcher name? number?
      .ok (options.present report.lines report.value codecs)
  | .search query path limit =>
    match Contact.load files path codecs with
    | .error failure => .error (.failure failure)
    | .ok contacts =>
      let (hits, tally) := Contact.search installed contacts query policy options.region
      let report : SearchReport := ⟨query, hits, tally, limit⟩
      .ok (options.present report.lines report.value codecs)

/-- Installs the region, loads the policy and carries out the command. -/
def Arguments.execute (arguments : Arguments) (files : FileSystem) (codecs : Codecs := .builtin) :
    Except RunFault Text :=
  match InstalledRegion.none.install arguments.options.region with
  | none => .error (.failure .regionAlreadyInstalled)
  | some installed =>
    match arguments.options.policy files codecs with
    | .error failure => .error (.failure failure)
    | .ok policy => arguments.command.execute arguments.options files installed policy codecs

def Arguments.paths (arguments : Arguments) : List Text :=
  arguments.options.policyPath.toList ++
    match arguments.command with
    | .search _ path _ => [path]
    | _ => []

def usage : Text :=
  ofLines <| List.map String.toList [
    "usage: [--country CODE] [--nanp] [--config FILE] [--json] COMMAND",
    "commands: tokens NAME",
    "          prefixes NAME",
    "          number NUMBER",
    "          match QUERY [--name NAME] [--number NUMBER]",
    "          search QUERY --contacts FILE [--limit COUNT]" ]

def run (files : FileSystem) (arguments : List Text) (codecs : Codecs := .builtin) : Outcome :=
  match Arguments.read? arguments with
  | none => ⟨2, [], usage⟩
  | some read =>
    match read.execute files codecs with
    | .ok output => ⟨0, output, []⟩
    | .error fault => ⟨1, [], fault.report⟩

end Keypad.CommandLine
