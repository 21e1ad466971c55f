import Serotonin.Fat32.Names

/-! Directories: arrays of entries of 32 bytes, in which the pieces of a long name stand
before the entry with the short name. The scans of the driver share how they collect the
pieces, and differ in the entries they skip. -/

namespace Serotonin.Fat32

open ByteMem (Mem u32 load16 store8 store32 blit fill)

/-- The 32 bytes of an entry. -/
abbrev Entry := List UInt8

namespace Entry

def byte (e : Entry) (i : Nat) : UInt8 := e.getD i 0

def first (e : Entry) : UInt8 := e.byte 0

def name (e : Entry) : List UInt8 := e.take 11

def attr (e : Entry) : UInt8 := e.byte 11

def word16 (e : Entry) (i : Nat) : Nat := (e.byte i).toNat + 256 * (e.byte (i + 1)).toNat

/-- `first_cluster_high` and `first_cluster_low`. -/
def firstCluster (e : Entry) : Nat := 65536 * e.word16 20 + e.word16 26

def fileSize (e : Entry) : Nat := e.word16 28 + 65536 * e.word16 30

/-- Is the entry a piece of a long name? -/
def isLfn (e : Entry) : Bool := e.attr &&& 0x0F == 0x0F

def isVolumeId (e : Entry) : Bool := e.attr &&& 0x08 != 0

def isDirectory (e : Entry) : Bool := e.attr &&& 0x10 != 0

/-- The entry read as a piece: `order` and `checksum`. -/
def order (e : Entry) : UInt8 := e.byte 0

def checksum (e : Entry) : UInt8 := e.byte 13

end Entry

/-- Where the 13 units of a piece lie. -/
def lfnPlaces : List Nat := [1, 3, 5, 7, 9, 14, 16, 18, 20, 22, 24, 28, 30]

def fat32LfnExtractChars (e : Entry) : List UInt8 := lfnPlaces.map fun i => lfnChar (e.byte i) (e.byte (i + 1))

/-- A piece with 13 units of the name from `offset` on. -/
def lfnEntry (order checksum : UInt8) (name : List UInt8) (offset : Nat) : Entry :=
  [order] ++ lfnUnits name offset 5 ++ [0x0F, 0, checksum] ++ lfnUnits name (offset + 5) 6 ++ [0, 0] ++
    lfnUnits name (offset + 11) 2

/-- The entry `i` of a buffer. -/
def entryAt (buf : Mem) (i : Nat) : Entry := (List.range 32).map fun j => buf (32 * i + j)

/-! ## Scans -/

/-- `lfn_valid`, `lfn_checksum` and `lfn_fragments`, the last one first. -/
structure LfnState where
  valid : Bool
  checksum : UInt8
  fragments : List (List UInt8)

namespace LfnState

def init : LfnState := { valid := false, checksum := 0, fragments := [] }

def reset (st : LfnState) : LfnState := { st with valid := false, fragments := [] }

/-- After a piece of a long name; `none` where it does not fit in `lfn_fragments`. -/
def collect (st : LfnState) (e : Entry) : Option LfnState :=
  let st := if e.order &&& 0x40 ≠ 0 then { valid := true, checksum := e.checksum, fragments := [] } else st
  if st.valid ∧ e.checksum = st.checksum then
    if st.fragments.length < 20 then some { st with fragments := fat32LfnExtractChars e :: st.fragments }
    else none
  else some st.reset

/-- The long name of the entry that the scan has come to, if it has one. -/
def longName (st : LfnState) (e : Entry) : Option (List UInt8) :=
  if st.valid ∧ st.fragments ≠ [] ∧ fat32LfnChecksum e.name = st.checksum then
    some ((st.fragments.flatten.takeWhile (· ≠ 0)).take 255)
  else none

end LfnState

/-- What a scan skips, and which entry it stops at. `accept` gets the number of entries
before that were not skipped. -/
structure Scanner where
  skipVolumeId : Bool
  skipBlank : Bool
  accept : Nat → LfnState → Entry → Bool

inductive ScanResult where
  | endMark
  | overrun
  | found (i : Nat) (st : LfnState)
  | next (count : Nat) (st : LfnState)

/-- One cluster of a scan: the entries of `buf` from `i` on, `n` in number. -/
def scanCluster (sc : Scanner) (buf : Mem) (i count : Nat) (st : LfnState) : Nat → ScanResult
  | 0 => .next count st
  | n + 1 =>
    let e := entryAt buf i
    if e.first = 0 then .endMark
    else if e.first = 0xE5 then scanCluster sc buf (i + 1) count st.reset n
    else if e.isLfn then
      match st.collect e with
      | none => .overrun
      | some st => scanCluster sc buf (i + 1) count st n
    else if (sc.skipVolumeId && e.isVolumeId) || (sc.skipBlank && e.first == 32) then
      scanCluster sc buf (i + 1) count st.reset n
    else if sc.accept count st e then .found i st
    else scanCluster sc buf (i + 1) (count + 1) st.reset n

/-- Where a scan has stopped: the cluster, its bytes, and the entry. -/
structure Hit where
  cluster : Nat
  buf : Mem
  index : Nat
  state : LfnState

def Hit.entry (h : Hit) : Entry := entryAt h.buf h.index

variable (g : Geometry)

/-- The loop over the clusters of a directory. With more rounds than there are clusters it
goes round in circles. -/
def scanChain (sc : Scanner) : Nat → Nat → Nat → LfnState → FatM (Option Hit)
  | 0, _, _, _ => .halt .diverges
  | n + 1, cluster, count, st =>
    if cluster < fat32ClusterEnd then do
      let buf ← fat32ReadCluster g cluster fun _ => 0
      match scanCluster sc buf 0 count st g.perCluster with
      | .endMark => return none
      | .overrun => .halt .overrun
      | .found i st => return some { cluster := cluster, buf := buf, index := i, state := st }
      | .next count st => do
        let next ← readFatEntry cluster
        scanChain sc n next count st
    else return none

def scanDir (sc : Scanner) (cluster : Nat) : FatM (Option Hit) := scanChain g sc (g.total + 1) cluster 0 .init

/-- The test of the entry by its long name and by the 11 bytes of the short one. -/
def nameMatches (name : List UInt8) (st : LfnState) (e : Entry) : Bool :=
  (match st.longName e with
    | some long => fat32Strcasecmp name long == 0
    | none => false) || e.name == fat32BuildNameKey name

/-- The scan of `fat32_finddir`. -/
def finddirScan (name : List UInt8) : Scanner where
  skipVolumeId := true
  skipBlank := true
  accept _ := nameMatches name

/-- The scan of `fat32_unlink` and `fat32_rmdir`. -/
def removeScan (name : List UInt8) : Scanner where
  skipVolumeId := true
  skipBlank := false
  accept _ := nameMatches name

/-- The scan of `fat32_update_dir_entry`. -/
def updateScan (name : List UInt8) : Scanner where
  skipVolumeId := false
  skipBlank := false
  accept _ := nameMatches name

/-- The scan of `fat32_readdir`. -/
def readdirScan (index : Nat) : Scanner where
  skipVolumeId := true
  skipBlank := true
  accept count _ _ := count == index

/-! ## Nodes -/

/-- What the driver reads and sets of a node and its `fs_data`. -/
structure Node where
  name : List UInt8
  directory : Bool
  size : Nat
  mode : Nat
  cluster : Nat
  parentCluster : Nat
deriving DecidableEq

def sIfdir : Nat := 0o040000
def sIfreg : Nat := 0o100000

/-- The node of an entry. -/
def nodeOf (name : List UInt8) (h : Hit) : Node where
  name := name.take 255
  directory := h.entry.isDirectory
  size := h.entry.fileSize
  mode :=
    if h.entry.isDirectory then sIfdir + 0o755
    else if h.entry.attr &&& 0x01 ≠ 0 then sIfreg + 0o444
    else sIfreg + 0o644
  cluster := h.entry.firstCluster
  parentCluster := h.cluster

def fat32Finddir (dir : Node) (name : List UInt8) : FatM (Option Node) := do
  match ← scanDir g (finddirScan name) dir.cluster with
  | none => return none
  | some h => return some (nodeOf name h)

/-- The name that an entry shows. -/
def shownName (h : Hit) : List UInt8 := (h.state.longName h.entry).getD (fat32NameFromEntry h.entry.name)

def fat32Readdir (dir : Node) (index : Nat) : FatM (Option Node) := do
  match ← scanDir g (readdirScan index) dir.cluster with
  | none => return none
  | some h => return some (nodeOf (shownName h) h)

/-! ## Removal -/

/-- The pieces of a long name before the entry `n`, marked as deleted. The mark has bit
`0x40` itself, which ends the loop. -/
def deletePieces (buf : Mem) : Nat → Mem
  | 0 => buf
  | j + 1 =>
    if (entryAt buf j).isLfn && (entryAt buf j).first != 0xE5 then
      let buf := store8 buf (32 * j) 0xE5
      if (entryAt buf j).order &&& 0x40 ≠ 0 then buf else deletePieces buf j
    else buf

def fat32DeleteLfnChain (buf : Mem) (sfnIndex : Nat) : Mem := deletePieces (store8 buf (32 * sfnIndex) 0xE5) sfnIndex

/-- The entry deleted, with size 0. -/
def removeHit (h : Hit) : FatM Unit :=
  fat32WriteCluster g h.cluster (store32 (fat32DeleteLfnChain h.buf h.index) (32 * h.index + 28) 0)

def fat32Unlink (parent : Node) (name : List UInt8) : FatM Int := do
  if !parent.directory then return -1
  else if g.readOnly then return -1
  else match ← scanDir g (removeScan name) parent.cluster with
  | none => return -1
  | some h =>
    if h.entry.isDirectory then return -1
    else
      removeHit g h
      return 0

/-- One cluster of `fat32_dir_is_empty`, if that decides it. -/
def emptyCluster (buf : Mem) (i : Nat) : Nat → Option Bool
  | 0 => none
  | n + 1 =>
    let e := entryAt buf i
    if e.first = 0 then some true
    else if e.first = 0xE5 ∨ e.isVolumeId ∨ e.isLfn ∨ e.first = 32 then emptyCluster buf (i + 1) n
    else if e.first = 46 ∧ (e.byte 1 = 32 ∨ e.byte 1 = 46) then emptyCluster buf (i + 1) n
    else some false

def dirIsEmptyFrom : Nat → Nat → FatM Bool
  | 0, _ => .halt .diverges
  | n + 1, cluster =>
    if cluster < fat32ClusterEnd then do
      let buf ← fat32ReadCluster g cluster fun _ => 0
      match emptyCluster buf 0 g.perCluster with
      | some b => return b
      | none => do
        let next ← readFatEntry cluster
        dirIsEmptyFrom n next
    else return true

def fat32DirIsEmpty (cluster : Nat) : FatM Bool := dirIsEmptyFrom g (g.total + 1) cluster

def fat32Rmdir (parent : Node) (name : List UInt8) : FatM Int := do
  if !parent.directory then return -1
  else if g.readOnly then return -1
  else match ← scanDir g (removeScan name) parent.cluster with
  | none => return -1
  | some h =>
    if !h.entry.isDirectory then return -1
    else if !(← fat32DirIsEmpty g h.entry.firstCluster) then return -1
    else
      removeHit g h
      return 0

/-- The size of the first entry with the name, from the cluster `parent_cluster` on. -/
def fat32UpdateDirEntry (node : Node) (newSize : Nat) : FatM Unit := do
  match ← scanDir g (updateScan node.name) node.parentCluster with
  | none => return ()
  | some h => fat32WriteCluster g h.cluster (store32 h.buf (32 * h.index + 28) newSize)

end Serotonin.Fat32
