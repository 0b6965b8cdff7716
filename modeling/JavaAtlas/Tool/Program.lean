import JavaAtlas.Storage.FileSystem
import JavaAtlas.Tool.Script
import JavaAtlas.Tool.Trace

/-!
# Programs

A few programs are on every machine, and scripts are made of them.  This module says
what these programs do.

Main definitions:

- `simple?`: the programs that need no others.
- `program?`: these and the one that carries scripts out.
-/

namespace JavaAtlas.Tool

open Storage
open Text.Utf8 (Bytes)

/-! ## Writing -/

/-- The value of octal digits. -/
def octalValue (cs : List Char) : Nat :=
  cs.foldl (fun n c => n * 8 + (c.toNat - 48)) 0

/-- A digit of a number in base eight. -/
def isOctal (c : Char) : Bool :=
  '0' ≤ c && c ≤ '7'

/-- The octet of an escape letter. -/
def controlOf? : Char → Option UInt8
  | 'a' => some 7
  | 'b' => some 8
  | 't' => some 9
  | 'n' => some 10
  | 'v' => some 11
  | 'f' => some 12
  | 'r' => some 13
  | '\\' => some 92
  | _ => none

/-- The octets of one character. -/
def octetsOfChar (c : Char) : Bytes :=
  Text.Utf8.encode (String.singleton c)

/-- The octet of an escape letter that counts outside scripts only. -/
def furtherControlOf? : Char → Option UInt8
  | 'e' => some 27
  | '"' => some 34
  | _ => none

/-- The value of a hexadecimal digit. -/
def hexadecimalDigit? (c : Char) : Option Nat :=
  if '0' ≤ c ∧ c ≤ '9' then some (c.toNat - 48)
  else if 'a' ≤ c ∧ c ≤ 'f' then some (c.toNat - 87)
  else if 'A' ≤ c ∧ c ≤ 'F' then some (c.toNat - 55)
  else none

/-- The octet of at most two hexadecimal digits, and what follows them. -/
def hexadecimal? (cs : List Char) : Option (UInt8 × List Char) :=
  let digits := ((cs.take 2).map hexadecimalDigit?).takeWhile Option.isSome
  if digits.isEmpty then none
  else
    some (UInt8.ofNat ((digits.filterMap id).foldl (fun n d => n * 16 + d) 0),
      cs.drop digits.length)

/-- An escape from behind the backslash on: its octets and what follows it.  Scripts know
fewer escapes. -/
def escaped (inScript : Bool) (cs : List Char) : Bytes × List Char :=
  match cs with
  | [] => ([92], [])
  | c :: rest =>
    match (controlOf? c).or (if inScript then none else furtherControlOf? c),
      if inScript || c != 'x' then none else hexadecimal? rest with
    | some octet, _ => ([octet], rest)
    | none, some (octet, rest) => ([octet], rest)
    | none, none =>
      let digits := (cs.take 3).takeWhile isOctal
      if digits.isEmpty then (92 :: octetsOfChar c, rest)
      else ([UInt8.ofNat (octalValue digits)], cs.drop digits.length)

/-- A text with the escapes of scripts replaced.  The number bounds the characters. -/
def unescaped : Nat → List Char → Bytes
  | 0, _ => []
  | _ + 1, [] => []
  | n + 1, '\\' :: cs =>
    let (octets, rest) := escaped true cs
    octets ++ unescaped n rest
  | n + 1, c :: cs => octetsOfChar c ++ unescaped n cs

/-- A pattern filled in once, and the arguments that are left. -/
def filledIn (inScript : Bool) : Nat → List Char → List String → Bytes × List String
  | 0, _, args => ([], args)
  | _ + 1, [], args => ([], args)
  | n + 1, '%' :: '%' :: cs, args => put n [37] cs args
  | n + 1, '%' :: 's' :: cs, args => put n (argument "" args) cs args.tail
  | n + 1, '%' :: 'd' :: cs, args => put n (argument "0" args) cs args.tail
  | n + 1, '\\' :: cs, args =>
    let (octets, rest) := escaped inScript cs
    put n octets rest args
  | n + 1, c :: cs, args => put n (octetsOfChar c) cs args
where
  /-- The next argument. -/
  argument (missing : String) (args : List String) : Bytes :=
    Text.Utf8.encode (args.headD missing)
  /-- Octets and the rest of the pattern behind them. -/
  put (n : Nat) (octets : Bytes) (cs : List Char) (args : List String) : Bytes × List String :=
    let (later, args) := filledIn inScript n cs args
    (octets ++ later, args)

/-- A pattern filled in until no arguments are left. -/
def filled (inScript : Bool) (pattern : List Char) : Nat → List String → Bytes
  | 0, _ => []
  | n + 1, args =>
    let (octets, left) := filledIn inScript (pattern.length + 1) pattern args
    if left.isEmpty || left.length = args.length then octets
    else octets ++ filled inScript pattern n left

/-- The words of a line with blanks between, and a line end unless it is left out. -/
def line (escapes : Bool) (args : List String) : Bytes :=
  match args with
  | "-n" :: words => body words
  | words => body words ++ [10]
where
  /-- The words with blanks between. -/
  body (words : List String) : Bytes :=
    let cs := (" ".intercalate words).toList
    if escapes then unescaped (cs.length + 1) cs else Text.Utf8.encode (String.ofList cs)

/-! ## Waiting -/

/-- Microseconds in a unit of time. -/
def unit? : List Char → Option Nat
  | [] => some 1000000
  | ['s'] => some 1000000
  | ['m'] => some 60000000
  | ['h'] => some 3600000000
  | ['d'] => some 86400000000
  | _ => none

/-- Microseconds of a number of units. -/
def microseconds? (text : String) : Option Nat := do
  let cs := text.toList
  let whole := cs.takeWhile Char.isDigit
  let rest := cs.drop whole.length
  let fraction := if rest.head? == some '.' then (rest.drop 1).takeWhile Char.isDigit else []
  let unit ← unit? (if rest.head? == some '.' then rest.drop (fraction.length + 1) else rest)
  let n ← (String.ofList (whole ++ fraction)).toNat?
  return n * unit / Nat.pow 10 fraction.length

/-! ## Programs that need no others -/

/-- What reading a file gives to the one who asked for it. -/
def shown (fs : FileSystem) (name : String) : Trace :=
  match fs.read (Path.asWritten name) with
  | .ok content => ⟨[.write content], .exit 0⟩
  | .error fault => complaint fault.error
where
  /-- The complaint about a file that cannot be read. -/
  complaint (e : FileError) : Trace :=
    .writes s!"cat: {name}: {e.text}\n" 1

/-- Several files one after the other; the run is a success if all could be read. -/
def shownAll (fs : FileSystem) : Nat → List String → Trace
  | status, [] => .exits status
  | status, name :: names =>
    (shown fs name).andThen fun s => shownAll fs (max status s) names

/-- Waits for all given times. -/
def waits : List String → Trace
  | [] => .exits 0
  | text :: texts =>
    match microseconds? text with
    | none => .writes s!"sleep: invalid time interval ‘{text}’\n" 1
    | some n =>
      let t := waits texts
      { t with events := .wait n :: t.events }

/-- What a program does that needs no other one.  Inside a script escapes count. -/
def simple? (fs : FileSystem) (inScript : Bool) : List String → Option Trace
  | "true" :: _ => some (.exits 0)
  | ":" :: _ => if inScript then some (.exits 0) else none
  | "false" :: _ => some (.exits 1)
  | "echo" :: args => some ⟨[.write (line inScript args)], .exit 0⟩
  | "printf" :: pattern :: args =>
    some ⟨[.write (filled inScript pattern.toList (args.length + 1) args)], .exit 0⟩
  | ["pwd"] => some (.writes ((FileSystem.pathOf fs.workingDirectory).text ++ "\n") 0)
  | "cat" :: names => some (shownAll fs 0 names)
  | "sleep" :: times => some (waits times)
  | _ => none

/-! ## Scripts -/

/-- The numbers of signals by name. -/
def signals : List (String × Nat) :=
  [("HUP", 1), ("INT", 2), ("QUIT", 3), ("ABRT", 6), ("KILL", 9), ("USR1", 10), ("SEGV", 11),
    ("USR2", 12), ("PIPE", 13), ("ALRM", 14), ("TERM", 15)]

/-- The signal of a number or name. -/
def signalOf? (text : String) : Option Nat :=
  (text.toNat?).or (signals.lookup text)

/-- The signal that a script sends to itself. -/
def ownSignal? : List String → Option Nat
  | [option, process] =>
    if option.startsWith "-" then
      (signalOf? (option.drop 1).toString).filter fun _ => isSelf process
    else none
  | ["-s", name, process] => (signalOf? name).filter fun _ => isSelf process
  | [process] => if isSelf process then some 15 else none
  | _ => none
where
  /-- The process is the script itself. -/
  isSelf (process : String) : Bool :=
    process == toString selfNumber

/-- What a script does, given what its programs do. -/
def Script.trace (run : List String → Option Trace) (name : String) (arguments : List String) :
    Nat → Script → Trace
  | status, [] => .exits status
  | status, c :: rest =>
    if c.joint.holds status then
      match c.words.map (Word.expand ⟨name, arguments, status⟩) with
      | ["exit"] => .exits status
      | "exit" :: n :: _ => .exits (n.toNat?.getD 2 % 256)
      | "exec" :: words => quietly c (called c words)
      | "kill" :: words =>
        match ownSignal? words with
        | some n => ⟨[], .killed n⟩
        | none => Script.trace run name arguments 1 rest
      | words =>
        (asStatus (quietly c (called c words))).andThen fun s =>
          Script.trace run name arguments s rest
    else Script.trace run name arguments status rest
where
  /-- What a program does, or the complaint that there is none. -/
  called (c : Command) (words : List String) : Trace :=
    match run words with
    | some t => t
    | none =>
      let program := words.headD ""
      .writes s!"{name}: {c.line}: {program}: not found\n" 127
  /-- The output is thrown away if the command asks for it. -/
  quietly (c : Command) (t : Trace) : Trace :=
    if c.isSilent then t.silenced else t
  /-- A program that was killed counts as one that failed. -/
  asStatus (t : Trace) : Trace :=
    match t.ending with
    | .exit _ => t
    | .killed n => ⟨t.events, .exit (128 + n)⟩

/-- Name of the program that carries scripts out. -/
def scriptRunner : String := "sh"

/-- What a program does; the number bounds scripts inside scripts.  There is no such
program if the result is missing. -/
def program? (fs : FileSystem) : Nat → Bool → List String → Option Trace
  | 0, _, _ => none
  | n + 1, inScript, words =>
    let carriedOut (name text : String) (arguments : List String) : Trace :=
      Script.trace (program? fs n true) name arguments 0 (Script.ofText text)
    match words with
    | "sh" :: "-c" :: text :: name :: arguments => some (carriedOut name text arguments)
    | ["sh", "-c", text] => some (carriedOut scriptRunner text [])
    | "sh" :: file :: arguments =>
      match fs.read (Path.asWritten file) with
      | .ok content => some (carriedOut file (Text.Utf8.decode content) arguments)
      | .error _ => some (.writes s!"sh: 0: cannot open {file}: No such file\n" 2)
    | _ => simple? fs inScript words

/-- Number of scripts inside each other. -/
def scriptLimit : Nat := 64

end JavaAtlas.Tool
