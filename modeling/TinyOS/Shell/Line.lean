import TinyOS.Args.Pack
import TinyOS.Lib.Calls

/-!
# The command line (`tinyos_shell.c`)

`process_line` splits its tokens at each `|` into fragments, looks up the command of each one, starts
them as a pipeline, and waits for them. It is written here as a program that makes system calls and
goes on with what they return; what the calls do is left to the modules above.

The arrays `Vargc` and `Vargv` have one element for each token, and hold anything at first. A pointer
into `argv` is the index of the token it points to. `none` is an access outside of an array.
-/

set_option autoImplicit false

namespace TinyOS

open Transition Prog

/-! ## Texts -/

def ascii (s : String) : List UInt8 := s.toList.map fun c => UInt8.ofNat c.toNat

def emptyFragment : List UInt8 := ascii "Error: a pipeline fragment was empty.\n"

def notFound (name : CString) : List UInt8 :=
  ascii "Command not found: '" ++ name.1 ++ ascii "'\n"

def exitedWith (name : CString) (exitval : Int) : List UInt8 :=
  name.1 ++ ascii " exited with status " ++ ascii (toString exitval) ++ ascii "\n"

/-- `"|"`. -/
def bar : CString := cstring "|" (by decide)

/-- The names of the programs, in the order of the table. -/
def COMMANDS : List CString :=
  [cstring "help" (by decide), cstring "ls" (by decide), cstring "sysinfo" (by decide),
    cstring "runterm" (by decide), cstring "sh" (by decide), cstring "repeat" (by decide),
    cstring "fibo" (by decide), cstring "cap" (by decide), cstring "lcase" (by decide),
    cstring "wc" (by decide), cstring "lenum" (by decide), cstring "more" (by decide),
    cstring "symposium" (by decide), cstring "symp_thr" (by decide), cstring "hanoi" (by decide),
    cstring "rserver" (by decide), cstring "rcli" (by decide), cstring "echo" (by decide),
    cstring "time" (by decide)]

/-! ## The calls -/

/-- A `pipe_t`. -/
structure PipeT where
  read : Int
  write : Int

inductive ShellCall where
  | openNull
  | dup2 (oldfd newfd : Int)
  | close (fd : Int)
  /-- `Pipe(& pipe)`, where the variable holds `pipe`. -/
  | pipe (pipe : PipeT)
  /-- `Execute(COMMANDS[comd].prog, Vargc[i], Vargv[i])`; `args` are the strings of `Vargv[i]`. -/
  | execute (comd : Nat) (args : List CString)
  | waitChild (pid : Option Nat)
  | printf (text : List UInt8)

/-- The outcome of a call: `none` is `NOFILE`, or `NOPROC`. `Pipe` answers what it returns and what it
leaves in `pipe`, and `WaitChild` what it leaves in `exitval`. -/
@[reducible] def ShellCall.Reply : ShellCall → Type
  | .openNull => Option Int
  | .pipe _ => Int × PipeT
  | .execute _ _ => Option Nat
  | .waitChild _ => Int
  | .dup2 _ _ | .close _ | .printf _ => Unit

abbrev ShellProg (α : Type) := Prog ShellCall ShellCall.Reply α

namespace Shell

def openNull : ShellProg (Option Int) := make ShellCall.openNull

def dup2 (oldfd newfd : Int) : ShellProg Unit := make (ShellCall.dup2 oldfd newfd)

def close (fd : Int) : ShellProg Unit := make (ShellCall.close fd)

def pipe (pipe : PipeT) : ShellProg (Int × PipeT) := make (ShellCall.pipe pipe)

def execute (comd : Nat) (args : List CString) : ShellProg (Option Nat) :=
  make (ShellCall.execute comd args)

def waitChild (pid : Option Nat) : ShellProg Int := make (ShellCall.waitChild pid)

def printf (text : List UInt8) : ShellProg Unit := make (ShellCall.printf text)

end Shell

/-! ## Fragments -/

/-- `xs[i] = x`. -/
def store {α : Type} (xs : List α) (i : Nat) (x : α) : Option (List α) :=
  if i < xs.length then some (xs.set i x) else none

structure Split where
  Vargc : List Int
  Vargv : List Nat
  frag : Nat

/-- A turn of the loop, at the token `i`. -/
def splitToken (i : Nat) (token : CString) (st : Split) : Option Split :=
  if token ≠ bar then do
    let count ← st.Vargc[st.frag]?
    let Vargc ← store st.Vargc st.frag (count + 1)
    if count + 1 = 1 then
      let Vargv ← store st.Vargv st.frag i
      some { st with Vargc := Vargc, Vargv := Vargv }
    else some { st with Vargc := Vargc }
  else do
    let Vargc ← store st.Vargc (st.frag + 1) 0
    some { st with Vargc := Vargc, frag := st.frag + 1 }

def splitLoop : Nat → List CString → Split → Option Split
  | _, [], st => some st
  | i, token :: tokens, st => (splitToken i token st).bind (splitLoop (i + 1) tokens)

/-- The fragments of `argv`, where `Vargc` and `Vargv` is what the arrays hold at first. -/
def splitLine (argv : List CString) (Vargc : List Int) (Vargv : List Nat) : Option Split := do
  let Vargc ← store Vargc 0 0
  let st ← splitLoop 0 argv { Vargc := Vargc, Vargv := Vargv, frag := 0 }
  some { st with frag := st.frag + 1 }

/-- `comd[i]`, and the arguments that `Vargc[i]` and `Vargv[i]` say. -/
structure Fragment where
  comd : Nat
  args : List CString

/-- The loop that checks the fragments from `i` on, `n` of them: the text that it prints, or the
fragments. -/
def checkLoop (argv : List CString) (st : Split) :
    Nat → Nat → Option (Except (List UInt8) (List Fragment))
  | 0, _ => some (.ok [])
  | n + 1, i => do
    let count ← st.Vargc[i]?
    if count = 0 then some (.error emptyFragment)
    else
      let start ← st.Vargv[i]?
      let name ← argv[start]?
      match COMMANDS.findIdx? (fun cmdname => cmdname = name) with
      | none => some (.error (notFound name))
      | some comd =>
        let rest ← checkLoop argv st n (i + 1)
        some (rest.map fun fs => ⟨comd, (argv.drop start).take count.toNat⟩ :: fs)

/-! ## The pipeline -/

def savefid (fsaved : Int) : ShellProg Int := do
  match ← Shell.openNull with
  | none => .fail
  | some savior =>
    Shell.dup2 fsaved savior
    return savior

/-- `Dup2(oldfd, newfd); Close(oldfd);` -/
def replaceFid (oldfd newfd : Int) : ShellProg Unit := do
  Shell.dup2 oldfd newfd
  Shell.close oldfd

/-- A turn of the loop that constructs the pipeline; nothing reads what `Pipe` returns. -/
def startFragment (savein saveout : Int) (last : Bool) (f : Fragment) (pipe : PipeT) :
    ShellProg (Option Nat × PipeT) := do
  let pipe ← if last then do
      replaceFid saveout 1
      pure pipe
    else do
      let (_, pipe) ← Shell.pipe pipe
      replaceFid pipe.write 1
      pure pipe
  let child ← Shell.execute f.comd f.args
  if last then replaceFid savein 0 else replaceFid pipe.read 0
  return (child, pipe)

def startLoop (savein saveout : Int) : List Fragment → PipeT → ShellProg (List (Option Nat))
  | [], _ => return []
  | f :: fs, pipe => do
    let (child, pipe) ← startFragment savein saveout fs.isEmpty f pipe
    let children ← startLoop savein saveout fs pipe
    return child :: children

def waitLoop : List (Fragment × Option Nat) → ShellProg Unit
  | [] => return ()
  | (f, child) :: rest => do
    let exitval ← Shell.waitChild child
    if exitval ≠ 0 then Shell.printf (exitedWith (f.args.headD bar) exitval)
    waitLoop rest

/-- `process_line` from where it constructs the pipeline; `pipe` is what the variable holds at
first. -/
def runPipeline (fs : List Fragment) (pipe : PipeT) : ShellProg Int := do
  let savein ← savefid 0
  let saveout ← savefid 1
  let child ← startLoop savein saveout fs pipe
  waitLoop (fs.zip child)
  return 1

/-- What `process_line` does after its checks. -/
def respond (pipe : PipeT) : Except (List UInt8) (List Fragment) → ShellProg Int
  | .error text => do
    Shell.printf text
    return 0
  | .ok fs => runPipeline fs pipe

/-- `process_line`, where `Vargc`, `Vargv` and `pipe` is what its variables hold at first. -/
def processLine (argv : List CString) (Vargc : List Int) (Vargv : List Nat) (pipe : PipeT) :
    Option (ShellProg Int) := do
  let st ← splitLine argv Vargc Vargv
  let checked ← checkLoop argv st st.frag 0
  some (respond pipe checked)

end TinyOS
