import KernelModules.Lib.CString

/-!
# Labels

`mp4_given.h`: the security ids, the decoding of the `security.mp4` attribute and the paths
that are never checked. The access masks are those of `linux/fs.h`.
-/

namespace KernelModules.MP4

def noAccess : Int := 0
def readObj : Int := 1
def readWrite : Int := 2
def writeObj : Int := 3
def execObj : Int := 4
def readDir : Int := 5
def rwDir : Int := 6
def targetSid : Int := 7

abbrev Mask := BitVec 32

def mayExec : Mask := 1
def mayWrite : Mask := 2
def mayRead : Mask := 4
def mayAppend : Mask := 8
def mayAccess : Mask := 16

/-- `EACCES` of `asm-generic/errno-base.h`. -/
def eacces : Int := 13

/-- `strcmp(a, b) == 0` -/
def strcmp (a : List UInt8) (b : String) : Bool := cstr a == bytes b

/-- `strncmp(a, b, strlen(b)) == 0` -/
def strncmp (a : List UInt8) (b : String) : Bool := (bytes b).isPrefixOf (cstr a)

def credCtxToSid (credCtx : List UInt8) : Int :=
  if strcmp credCtx "read-only" then readObj
  else if strcmp credCtx "read-write" then readWrite
  else if strcmp credCtx "exec" then execObj
  else if strcmp credCtx "target" then targetSid
  else if strcmp credCtx "write-only" then writeObj
  else if strcmp credCtx "dir" then readDir
  else if strcmp credCtx "dir-write" then rwDir
  else noAccess

def mp4ShouldSkipPath (dir : List UInt8) : Bool :=
  strncmp dir "/dev" || strncmp dir "/proc" || strncmp dir "/lib" || strncmp dir "/events" ||
  strncmp dir "/mnt" || strncmp dir "/run" || strncmp dir "/lvm" || strncmp dir "/conf" ||
  strncmp dir "/usr" || strncmp dir "/bin" || strcmp dir "/"

end KernelModules.MP4
