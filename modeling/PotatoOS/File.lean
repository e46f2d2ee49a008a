/-
PotatoOS/File.lean

Files: `getFile` and `putFile`.

`getFile` reads the chain of the entry to the transfer buffer, one cluster
behind the other, from cluster `readInOffset` of the buffer on.  `putFile`
splits into `putTarget`, which makes all checks and finds the directory, and
`putStore`, which inserts the entry and writes the contents.  The array that
`convertFromFATFormat` writes the dotted name to is not initialised, so its
old contents are an argument.  The use of an entry that no search has filled
has no defined behaviour.
-/
import PotatoOS.Path

namespace PotatoOS

open Prog

/-! ### Reading -/

/-- An `unsigned int` assigned to an `int`. -/
def toSigned (n : Nat) : Int := if n < 2 ^ 31 then n else n - 2 ^ 32

/-- The cluster loop of `getFile`. -/
def readLoop (env : Env) (g : Globals) (readInOffset : Nat) : Nat → Int → Nat → Prog State Int
  | 0, _, _ => halt .exhausted
  | fuel + 1, cluster, clusterReadCount =>
      if cluster < endCluster32 then do
        -- the result of the read is not looked at
        let _ ← clusterRead env g (toUnsigned cluster)
          ((clusterReadCount + readInOffset) % 2 ^ 32)
        let next ← fatRead env g (toUnsigned cluster)
        if next = badCluster32 then return -1
        if next = -1 then return -1
        readLoop env g readInOffset fuel next (clusterReadCount + 1)
      else pure 0

/-- What `getFile` returns and stores through its arguments. -/
structure FileResult where
  code : Int
  fileMeta : Option DirectoryEntry
  fileContents : Option Nat

/-- `getFile`: look up the path and read the chain of the entry from place `readInOffset` of the
transfer buffer on, counted in clusters.  A path that leads to no search leaves the entry unset. -/
def getFile (env : Env) (g : Globals) (fuel : Nat) (filePath : CString) (readInOffset : Nat) :
    Prog State FileResult :=
  if g.fatType ≠ 32 then pure ⟨-1, none, none⟩
  else do
    match ← walkPath env g fuel filePath with
    | .error code => return ⟨code, none, none⟩
    | .ok (_, none) => halt .undefined
    | .ok (_, some fileInfo) =>
        if fileInfo.isDirectory then return ⟨-3, some fileInfo, none⟩
        if readInOffset < 1 ∨ (readInOffset * g.bytesPerSector * g.sectorsPerCluster
            + fileInfo.fileSize) % 2 ^ 32 > 262144 then
          return ⟨-3, some fileInfo, none⟩
        let code ← readLoop env g readInOffset fuel
          (toSigned (getClusterFromEntry g fileInfo)) 0
        if code ≠ 0 then return ⟨code, some fileInfo, none⟩
        return ⟨0, some fileInfo, some ((diskLocation
          + g.sectorsPerCluster * g.bytesPerSector * readInOffset) % 2 ^ 32)⟩

/-! ### Writing -/

/-- The entry that `putFile` makes up for the root directory. -/
def rootInfo (g : Globals) : DirectoryEntry :=
  ((DirectoryEntry.setField (fun _ => 0) 11 1 (fileDirectory ||| fileVolumeId).toNat).setField
    20 2 (getEntryHighBits g g.rootCluster)).setField 26 2 (getEntryLowBits g g.rootCluster)

/-- How `putFile` resolves its path. -/
def findDirectory (env : Env) (g : Globals) (fuel : Nat) (filePath : CString) :
    Prog State (Except Int (Nat × Option DirectoryEntry)) :=
  if filePath = rootPath then pure (.ok (g.rootCluster, some (rootInfo g)))
  else walkPath env g fuel filePath

/-- The checks of `putFile`: the cluster of the directory that is to receive
the file, or the code it returns.  `output` is the uninitialised array. -/
def putTarget (env : Env) (g : Globals) (fuel : Nat) (filePath : CString)
    (fileMeta : DirectoryEntry) (output : Mem) : Prog State (Except Int Nat) :=
  if testIfFATFormat fileMeta.bytes ≠ 0 then pure (.error (-2))
  else if g.fatType ≠ 32 then pure (.error (-1))
  else do
    match ← findDirectory env g fuel filePath with
    | .error code => return .error code
    | .ok (activeCluster, fileInfo) =>
        match ← directorySearch env g (convertFromFATFormat fileMeta.bytes output) fuel
          activeCluster with
        | .ok _ => return .error (-3)
        | .error code =>
            if code = -1 then return .error (-1)
            -- the attributes are read even where no search has filled the entry in
            match fileInfo with
            | none => halt .undefined
            | some fileInfo =>
                if fileInfo.isDirectory then return .ok activeCluster
                return .error (-2)

/-- The write loop of `putFile`. -/
def writeLoop (env : Env) (g : Globals) (fileContents : Mem) (fileSize : Nat) :
    Nat → Nat → Nat → Prog State Int
  | 0, _, _ => halt .exhausted
  | fuel + 1, dataLeftToWrite, activeCluster =>
      if dataLeftToWrite = 0 then pure 0
      else do
        -- a full cluster counts one byte more than it has
        let dataWrite :=
          if dataLeftToWrite ≥ g.clusterSize then g.clusterSize + 1 else dataLeftToWrite
        let offset := (fileSize + (2 ^ 32 - dataLeftToWrite)) % 2 ^ 32
        if (← clusterWrite env g (fun i => fileContents (offset + i)) dataWrite 1
          activeCluster) ≠ 0 then return -1
        -- unsigned, so that a rest of exactly one cluster wraps around
        let dataLeftToWrite := (dataLeftToWrite + (2 ^ 32 - dataWrite)) % 2 ^ 32
        if dataLeftToWrite = 0 then return 0
        let newCluster ← allocateFreeFAT env g
        if g.isBadMark newCluster then return -1
        if (← fatWrite env g activeCluster newCluster) ≠ 0 then return -1
        writeLoop env g fileContents fileSize fuel dataLeftToWrite newCluster

/-- What `putFile` does once the directory is found: the code, and the entry
as the caller finds it afterwards. -/
def putStore (env : Env) (g : Globals) (fuel : Nat) (fileContents : Mem)
    (fileMeta : DirectoryEntry) (output : Mem) (activeCluster : Nat) :
    Prog State (Int × DirectoryEntry) := do
  let (code, fileMeta) ← directoryAdd env g fileMeta fuel activeCluster
  if code ≠ 0 then return (-1, fileMeta)
  match ← directorySearch env g (convertFromFATFormat fileMeta.bytes output) fuel
    activeCluster with
  | .error code => return (if code = -2 then -2 else -1, fileMeta)
  | .ok (fileInfo, _) =>
      let code ← writeLoop env g fileContents fileMeta.fileSize fuel fileMeta.fileSize
        (getClusterFromEntry g fileInfo)
      return (code, fileMeta)

/-- `putFile`; `output` and `output'` are its two uninitialised arrays. -/
def putFile (env : Env) (g : Globals) (fuel : Nat) (filePath : CString) (fileContents : Mem)
    (fileMeta : DirectoryEntry) (output output' : Mem) : Prog State (Int × DirectoryEntry) := do
  match ← putTarget env g fuel filePath fileMeta output with
  | .error code => return (code, fileMeta)
  | .ok activeCluster => putStore env g fuel fileContents fileMeta output' activeCluster

end PotatoOS
