import RecordLayout.Compile
import RecordLayout.Diagnostic.Excerpt
import RecordLayout.Outline

/-!
The command line: arguments are read in order, then one source, and the answer is a status with
what goes to the two outputs. How a source is read is left open, so that the same rules serve any
place that sources come from.
-/

namespace RecordLayout.CommandLine

structure Options where
  /-- Whether to show the tokens. -/
  listing : Bool
  /-- Whether to show the outline. -/
  outline : Bool
  /-- The file to read; the standard input if there is none. -/
  file : Option String
deriving DecidableEq

def Options.initial : Options :=
  ⟨false, false, none⟩

inductive Request where
  | help
  | compile (options : Options)
deriving DecidableEq

def usage : String :=
  "usage: parseed [--lexer|-L] [--ast|-A] [FILE]\n\n" ++
  "Compiles a binary layout description. Reads stdin when FILE is omitted or '-'.\n\n" ++
  "  -L, --lexer   print the token list\n" ++
  "  -A, --ast     print the declaration tree\n" ++
  "  -h, --help    show this help"

inductive UsageError where
  | unknownOption (option : String)
  | secondFile (first second : String)
deriving DecidableEq

def UsageError.message : UsageError → String
  | unknownOption option => "unknown option '" ++ option ++ "'\n\n" ++ usage
  | secondFile first second =>
    "only one input file is accepted (got '" ++ first ++ "' and '" ++ second ++ "')"

/-- What arguments ask for, after some that have set the options. A lone dash goes back to the
standard input, and a request for help ends the reading. -/
def Request.ofArgs (options : Options) : List String → Except UsageError Request
  | [] => .ok (.compile options)
  | arg :: rest =>
    if arg = "--lexer" ∨ arg = "-L" then ofArgs { options with listing := true } rest
    else if arg = "--ast" ∨ arg = "-A" then ofArgs { options with outline := true } rest
    else if arg = "--help" ∨ arg = "-h" then .ok .help
    else if arg = "-" then ofArgs { options with file := none } rest
    else if arg.toList.head? = some '-' then .error (.unknownOption arg)
    else
      match options.file with
      | some previous => .error (.secondFile previous arg)
      | none => ofArgs { options with file := some arg } rest

/-- Why a source could not be read. -/
inductive ReadFault where
  | notFound
  | isDirectory
  | notText
  | other (cause : String)
deriving DecidableEq

def ReadFault.message : ReadFault → String
  | notFound => "No such file or directory (os error 2)"
  | isDirectory => "Is a directory (os error 21)"
  | notText => "stream did not contain valid UTF-8"
  | other cause => cause

/-- The text that bytes encode. -/
def decodeText (bytes : ByteArray) : Except ReadFault String :=
  match String.fromUTF8? bytes with
  | some text => .ok text
  | none => .error .notText

/-- The exit status and what is written to the standard output and the standard error. -/
structure Report where
  status : Nat
  output : String
  errors : String
deriving DecidableEq

namespace Report

def success (output : String) : Report :=
  ⟨0, output, ""⟩

def refusal (message : String) : Report :=
  ⟨1, "", "Error: " ++ message ++ "\n"⟩

def unreadable (file : Option String) (fault : ReadFault) : Report :=
  let place := match file with
    | some path => "'" ++ path ++ "'"
    | none => "stdin"
  refusal ("failed to read " ++ place ++ "\n\nCaused by:\n    " ++ fault.message)

/-- The report of a mistake after what has been written already. -/
def mistake (output : String) (error : CompileError) : Report :=
  match error.render with
  | .ok excerpt => ⟨1, output, excerpt⟩
  | .error mismatch => ⟨101, output, mismatch.message ++ "\n"⟩

end Report

/-- One line on a source without mistakes. -/
def summary (source : Source) (schema : Schema) : String :=
  s!"{source.id}: ok, {schema.structs.length} struct(s), {schema.bitfields.length} bitfield(s)\n"

/-- Compiles a source and shows what the options ask for; the tokens are shown even if a later
stage finds a mistake. -/
def answer (options : Options) (source : Source) : Report :=
  match if options.listing then (tokenize source).map Token.listing else .ok "" with
  | .error error => .mistake "" error
  | .ok listing =>
    match compile defaultNesting source with
    | .error error => .mistake listing error
    | .ok schema =>
      if options.outline then .success (listing ++ schema.outlineText)
      else if options.listing then .success listing
      else .success (summary source schema)

/-- Carries out the arguments with a given way to read a file or the standard input. -/
def run [Monad m] (read : Option String → m (Except ReadFault String)) (args : List String) :
    m Report := do
  match Request.ofArgs .initial args with
  | .error error => return .refusal error.message
  | .ok .help => return .success (usage ++ "\n")
  | .ok (.compile options) =>
    match ← read options.file with
    | .error fault => return .unreadable options.file fault
    | .ok text => return answer options ⟨options.file.getD "<stdin>", text⟩

end RecordLayout.CommandLine
