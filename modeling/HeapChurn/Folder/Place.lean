/-!
# Places

Where a path can lead. A place is named by the way to it from the folder of a session: inside, by
names alone; outside, by two points for each folder on the way up, or by a slash for the outermost
folder, and then by names. Some places are the same on every machine: a few folders near the
outermost one, and the files that stand for devices.
-/

namespace HeapChurn

/-- The names on the way to a place. -/
abbrev Place : Type := List String

/-- A file that keeps no contents, but stands for something else. -/
inductive Device where
  /-- Takes whatever is written. -/
  | null
  /-- Has no room for anything. -/
  | full
  /-- The terminal of a session that has none. -/
  | terminal
  /-- The standard input. -/
  | input
  /-- The standard output. -/
  | output
  /-- The stream of the log. -/
  | log
  deriving Repr, DecidableEq

namespace Place

/-- The outermost folder. -/
def root : Place := ["/"]

/-- The folder around a place. The outermost one has none but itself. -/
def up (place : Place) : Place :=
  if place = root then root
  else if place.getLast?.getD ".." = ".." then place ++ [".."]
  else place.dropLast

/-- Folders of every machine in which only the system makes files. -/
def systemFolders : List Place := [["/", "proc"], ["/", "dev", "fd"]]

/-- The other folders of every machine. -/
def commonFolders : List Place :=
  ["bin", "boot", "dev", "etc", "home", "lib", "media", "mnt", "opt", "root", "run", "sbin", "srv",
    "tmp", "usr", "var"].map fun name => root ++ [name]

/-- Is a place a folder, whatever the files are? -/
def isStandardFolder (place : Place) : Bool :=
  place = root || place.all (· = "..") || commonFolders.contains place
    || systemFolders.contains place

/-- The device at a place. -/
def device? : Place → Option Device
  | ["/", "dev", name] =>
    [("null", .null), ("zero", .null), ("random", .null), ("urandom", .null), ("full", .full),
      ("tty", .terminal), ("stdin", .input), ("stdout", .output), ("stderr", .log)].lookup name
  | ["/", "dev", "fd", name] => [("0", .input), ("1", .output), ("2", .log)].lookup name
  | _ => none

end Place

end HeapChurn
