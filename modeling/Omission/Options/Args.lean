import Mathlib.Algebra.Group.Int.Defs
import Omission.Lib.Decimal

namespace Omission.Options
open Omission.Lib
set_option autoImplicit true

abbrev Text := List Char

structure HostService where
  host : Text
  service : Text
deriving DecidableEq

def find_last_of (c : Char) (t : Text) : Option Nat :=
  (t.reverse.findIdx? (· = c)).map fun k => t.length - 1 - k

def split_address (address : Text) : Option HostService :=
  (find_last_of ':' address).map fun i => ⟨address.take i, address.drop (i + 1)⟩

/-- `std::from_chars` for a signed type with the limits `lo` and `hi`: the value and the text
behind it; none is an error code. -/
def from_chars (lo hi : Int) (t : Text) : Option (Int × Text) :=
  let neg : Bool := t.head? = some '-'
  let u := if neg then t.tail else t
  let val : Int := if neg then -(leadingNat u) else leadingNat u
  if digits u ≠ [] ∧ lo ≤ val ∧ val ≤ hi then some (val, u.dropWhile Char.isDigit) else none

def INT32_MIN : Int := -2 ^ 31
def INT32_MAX : Int := 2 ^ 31 - 1
def INT64_MIN : Int := -2 ^ 63
def INT64_MAX : Int := 2 ^ 63 - 1

structure Args where
  devices : List Int
  threads : Option Int
  client : Option HostService
  server : Option HostService
  output_file : Option Text
  upload : Option HostService
  no_upload : Bool
  start_seed : Option Int
  min_size : Option Int
  fast_cpu : Bool
  origin : Bool
deriving DecidableEq

/-- `Args args{}` -/
def Args.default : Args :=
  ⟨[], none, none, none, none, none, false, none, none, false, false⟩

/-- Device 0 is the default where there is no server. -/
def Args.completed (a : Args) : Args :=
  if a.devices = [] ∧ a.server.isNone then { a with devices := a.devices ++ [0] } else a

/-- The object, the index into `argv` and the lines on `stderr`. -/
structure Frame where
  args : Args
  i : Nat
  stderr : List Text
deriving DecidableEq

def Frame.start : Frame := ⟨.default, 1, []⟩

/-- No result is a read of `argv` outside of it, or a loop that does not end. -/
abbrev Parser := StateT Frame Option

namespace Parser

def print (line : Text) : Parser Unit := fun s =>
  some ((), { s with stderr := s.stderr ++ [line] })

def set_args (f : Args → Args) : Parser Unit := fun s => some ((), { s with args := f s.args })

def invalid (option value : Text) : Text :=
  "invalid argument to ".toList ++ option ++ ": ".toList ++ value

section Options

variable (argv : List Text)

/-- `argv[i++]` -/
def next : Parser Text := fun s => argv[s.i]?.map fun arg => (arg, { s with i := s.i + 1 })

/-- `argv[i - 1]` -/
def last : Parser Text := fun s => argv[s.i - 1]?.map fun arg => (arg, s)

def check_duplicate (duplicate : Bool) (option : Text) : Parser Bool := do
  if duplicate then
    print ("duplicate ".toList ++ option ++ " option".toList)
    return true
  return false

def check_argument (option : Text) : Parser Bool := do
  if argv.length ≤ (← get).i then
    print ("missing argument to ".toList ++ option)
    return true
  return false

/-- The field `out` is written by `set`; `lo` and `hi` are the limits of its type. -/
def parse_argument_int (lo hi : Int) (out : Args → Option Int) (set : Int → Args → Args)
    (test : Int → Bool) (option : Text) : Parser Bool := do
  if ← check_duplicate (out (← get).args).isSome option then return false
  if ← check_argument argv (← last argv) then return false
  let arg_val ← next argv
  match from_chars lo hi arg_val with
  | some (val, []) =>
    if test val then
      set_args (set val)
      return true
    print (invalid option arg_val)
    return false
  | _ =>
    print (invalid option arg_val)
    return false

/-- The `while` over the numbers of `devices_str`. -/
def parse_devices (devices_str : Text) : Nat → Text → Parser Bool
  | 0, first => if first = [] then return true else failure
  | fuel + 1, first => do
    if first = [] then return true
    match from_chars INT32_MIN INT32_MAX first with
    | none =>
      print (invalid "--device".toList devices_str)
      return false
    | some (device, ptr) =>
      if device < 0 ∨ device ∈ (← get).args.devices ∨ ptr ≠ [] ∧ ptr.head? ≠ some ',' then
        print (invalid "--device".toList devices_str)
        return false
      set_args fun a => { a with devices := a.devices ++ [device] }
      parse_devices devices_str fuel (if ptr ≠ [] then ptr.tail else ptr)

def device (arg : Text) : Parser Bool := do
  if ← check_argument argv arg then return false
  let devices_str ← next argv
  if devices_str = "all".toList then
    set_args fun a => { a with devices := a.devices ++ [-1] }
    return true
  parse_devices devices_str devices_str.length devices_str

/-- `--client` and `--server`. -/
def endpoint (out : Args → Option HostService) (set : Option HostService → Args → Args)
    (arg : Text) : Parser Bool := do
  if ← check_duplicate (out (← get).args).isSome arg then return false
  if ← check_argument argv arg then return false
  let address := split_address (← next argv)
  if address.isNone then
    print ("invalid argument to ".toList ++ arg)
  set_args (set address)
  return true

def upload (arg : Text) : Parser Bool := do
  if ← check_duplicate (← get).args.upload.isSome arg then return false
  if ← check_argument argv arg then return false
  let address := split_address (← next argv)
  if address.isNone then
    print "invalid argument to --upload (expected host:port)".toList
    return false
  set_args fun a => { a with upload := address }
  return true

def output (arg : Text) : Parser Bool := do
  if ← check_duplicate (← get).args.output_file.isSome arg then return false
  if ← check_argument argv arg then return false
  let file ← next argv
  set_args fun a => { a with output_file := some file }
  return true

/-- One round of the `for`; false is a `return false`. -/
def option : Parser Bool := do
  let arg ← next argv
  if arg = "--device".toList then device argv arg
  else if arg = "--threads".toList then
    parse_argument_int argv INT32_MIN INT32_MAX (·.threads) (fun v a => { a with threads := v })
      (fun threads => threads ≥ 1 ∧ threads ≤ 1024) arg
  else if arg = "--client".toList then
    endpoint argv (·.client) (fun v a => { a with client := v }) arg
  else if arg = "--server".toList then
    endpoint argv (·.server) (fun v a => { a with server := v }) arg
  else if arg = "--output".toList then output argv arg
  else if arg = "--upload".toList then upload argv arg
  else if arg = "--no-upload".toList then
    set_args fun a => { a with no_upload := true }
    return true
  else if arg = "--start".toList then
    parse_argument_int argv INT64_MIN INT64_MAX (·.start_seed)
      (fun v a => { a with start_seed := v }) (fun _ => true) arg
  else if arg = "--size".toList then
    parse_argument_int argv INT32_MIN INT32_MAX (·.min_size) (fun v a => { a with min_size := v })
      (fun min_size => min_size ≥ 0) arg
  else if arg = "--fast-cpu".toList then
    set_args fun a => { a with fast_cpu := true }
    return true
  else if arg = "--origin".toList then
    set_args fun a => { a with origin := true }
    return true
  else
    print ("unknown option: ".toList ++ arg)
    return false

def options : Nat → Parser Bool
  | 0 => do if (← get).i < argv.length then failure else return true
  | fuel + 1 => do
    if (← get).i < argv.length then
      if ← option argv then options fuel else return false
    else return true

/-- What follows the `for`. -/
def finish : Parser Bool := do
  if (← get).args.threads.isSome ∧ (← get).args.client.isSome then
    print "--threads and --client are mutually exclusive".toList
    return false
  if (← get).args.output_file.isSome ∧ (← get).args.client.isSome then
    print "--output and --client are mutually exclusive".toList
    return false
  set_args Args.completed
  if -1 ∈ (← get).args.devices ∧ (← get).args.devices.length ≠ 1 then
    print "--device all cannot be mixed with explicit device ids".toList
    return false
  if (← get).args.start_seed.isSome ∧ (← get).args.devices = [] then
    print "--start does nothing when not running gpus".toList
    return false
  if (← get).args.min_size.isSome ∧ (← get).args.threads.isNone ∧ (← get).args.client.isSome then
    print "--size does nothing when not running cpu threads".toList
    return false
  return true

/-- `Args::parse`, with `argc` the length of `argv`. -/
def parse : Parser Bool := do
  if ← options argv argv.length then finish else return false

end Options

end Parser

end Omission.Options
