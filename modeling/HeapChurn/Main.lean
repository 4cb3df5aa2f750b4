import HeapChurn.Session

/-!
# The program

The host of a session is the machine itself. Everything that is decided is decided in the session;
here files are read and written, lines are printed, and time is taken.
-/

namespace HeapChurn

namespace Program

/-- The number of a system error. Some operations report it with its sign changed. -/
def errorNumber (code : UInt32) : Nat := (min code (0 - code)).toNat

/-- What a failed operation on a file means to a session. -/
def causeOf : IO.Error → IoError
  | .noFileOrDirectory .. => .notFound
  | .inappropriateType _ code _ =>
    if errorNumber code = 21 then .isDirectory else .notDirectory
  | .invalidArgument _ code details =>
    if errorNumber code = 36 then .nameTooLong else numbered code details
  | .permissionDenied _ code details | .resourceExhausted _ code details
  | .alreadyExists _ code details | .noSuchThing _ code details
  | .interrupted _ code details => numbered code details
  | .resourceBusy code details | .resourceVanished code details | .hardwareFault code details
  | .illegalOperation code details | .unsupportedOperation code details
  | .otherError code details => numbered code details
  | e => .other (toString e)
where
  numbered (code : UInt32) (details : String) : IoError :=
    .other (details ++ " (os error " ++ toString (errorNumber code) ++ ")")

def attempt {α : Type} (act : IO α) : IO (Except IoError α) := do
  try return .ok (← act) catch e => return .error (causeOf e)

/-- Carries something out and takes its time. -/
def timed {α : Type} (act : Unit → α) : IO (α × Elapsed) := do
  let start ← IO.monoNanosNow
  let result ← IO.lazyPure act
  let stop ← IO.monoNanosNow
  return (result, { wall := .ofSeconds 0 (stop - start), cpu := none })

/-- Processors of this machine; one if they cannot be counted. -/
def countProcessors : IO Nat := do
  match ← attempt (IO.FS.lines "/proc/cpuinfo") with
  | .ok lines => return max 1 (lines.countP (·.startsWith "processor"))
  | .error _ => return 1

def read (path : String) : IO Contents := attempt do
  return (← IO.FS.readBinFile path).data.toList

/-- Opens a file of answers. A folder can be opened too, but not read. -/
def openAnswers (path : String) : IO (Except IoError Source) := do
  match ← read path with
  | .ok contents => return .ok (.bytes contents)
  | .error .isDirectory => return .ok (.unreadable .isDirectory)
  | .error cause => return .error cause

/-- Reads the lines that the questions of an interview can take, as they are typed. -/
def readTyped : IO Source := do
  let input ← IO.getStdin
  let mut typed := ByteArray.empty
  for _ in List.range 4 do
    typed := typed ++ (← input.getLine).toUTF8
  return .bytes typed.data.toList

/-- The host of a machine with so many processors, where somebody may sit at a terminal. -/
def host (processors : Nat) (attended : Bool) : Host IO where
  read := read
  openAnswers := openAnswers
  terminal := if attended then some readTyped else none
  write path contents := attempt <| IO.FS.withFile path .write fun file => do
    file.write ⟨contents.toArray⟩
    file.flush
  print bytes := attempt do
    let output ← IO.getStdout
    output.write ⟨bytes.toArray⟩
    output.flush
  tell notice := do (← IO.getStderr).putStrLn (notice.line Binary64.toShortest)
  timed := timed
  allocator kind := .ofCapacity (Desk.capacity kind)
  processors
  times := Report.timeFormat

end Program

end HeapChurn

def main (words : List String) : IO UInt32 := do
  let attended ← (← IO.getStdin).isTty
  let host := HeapChurn.Program.host (← HeapChurn.Program.countProcessors) attended
  let ending ← HeapChurn.Session.run host {} words
  if let some message := ending.message? then
    (← IO.getStderr).putStrLn message
  return UInt32.ofNat ending.code
