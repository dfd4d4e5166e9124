/-!
A disk, as far as a search for documents can see it: what reading a path gives,
and what names a directory holds.
-/

namespace SymbolCoverage

namespace Disk

/-- Errors of the system have a number.  Other errors have a text of their own, or are known
by their kind alone. -/
inductive Error
  | system (code : Nat) (kind description : String)
  | described (kind description : String)
  | ofKind (kind description : String)
deriving DecidableEq

namespace Error

/-- The kinds of the errors of the system, by their numbers. -/
def systemKinds : List (Nat × String) :=
  [(1, "PermissionDenied"), (2, "NotFound"), (4, "Interrupted"), (7, "ArgumentListTooLong"),
    (11, "WouldBlock"), (12, "OutOfMemory"), (13, "PermissionDenied"), (16, "ResourceBusy"),
    (17, "AlreadyExists"), (18, "CrossesDevices"), (20, "NotADirectory"), (21, "IsADirectory"),
    (22, "InvalidInput"), (26, "ExecutableFileBusy"), (27, "FileTooLarge"), (28, "StorageFull"),
    (29, "NotSeekable"), (30, "ReadOnlyFilesystem"), (31, "TooManyLinks"), (32, "BrokenPipe"),
    (35, "Deadlock"), (36, "InvalidFilename"), (38, "Unsupported"), (39, "DirectoryNotEmpty"),
    (40, "FilesystemLoop"), (95, "Unsupported"), (98, "AddrInUse"), (99, "AddrNotAvailable"),
    (100, "NetworkDown"), (101, "NetworkUnreachable"), (103, "ConnectionAborted"),
    (104, "ConnectionReset"), (107, "NotConnected"), (110, "TimedOut"),
    (111, "ConnectionRefused"), (113, "HostUnreachable"), (115, "InProgress"),
    (116, "StaleNetworkFileHandle"), (122, "QuotaExceeded")]

def ofNumber (code : Nat) (description : String) : Error :=
  .system code ((systemKinds.lookup code).getD "Uncategorized") description

def notFound : Error := ofNumber 2 "No such file or directory"

def notADirectory : Error := ofNumber 20 "Not a directory"

def isADirectory : Error := ofNumber 21 "Is a directory"

def nameTooLong : Error := ofNumber 36 "File name too long"

def nulInPath : Error := .described "InvalidInput" "file name contained an unexpected NUL byte"

def invalidText : Error := .described "InvalidData" "stream did not contain valid UTF-8"

def description : Error → String
  | .system _ _ text => text
  | .described _ text => text
  | .ofKind _ text => text

def message : Error → String
  | .system code _ text => text ++ s!" (os error {code})"
  | .described _ text => text
  | .ofKind _ text => text

end Error
end Disk

/-- The names of a directory come in no particular order. -/
structure Disk where
  read : String → Except Disk.Error ByteArray
  entries : String → Except Disk.Error (List String)

end SymbolCoverage
