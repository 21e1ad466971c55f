import Serotonin.Fat32.Image

/-! New entries and new data: `fat32_create`, `fat32_mkdir` and `fat32_write`, with the searches for
a short name and for free slots. Where the code goes through a chain of clusters it may go through
`rounds` of them. -/

namespace Serotonin.Fat32

open ByteMem (Mem u32 blit)

variable (g : Geometry)

/-! ## Short names -/

/-- One cluster of the search for a short name, if that ends it. -/
def takenCluster (key : List UInt8) (buf : Mem) (i : Nat) : Nat → Option Bool
  | 0 => none
  | n + 1 =>
    let e := entryAt buf i
    if e.first = 0 then some false
    else if e.first = 0xE5 ∨ e.isLfn then takenCluster key buf (i + 1) n
    else if e.name = key then some true
    else takenCluster key buf (i + 1) n

def takenFrom (key : List UInt8) : Nat → Nat → FatM Bool
  | 0, _ => .halt .diverges
  | n + 1, cluster =>
    if cluster < fat32ClusterEnd then do
      let buf ← fat32ReadCluster g cluster fun _ => 0
      match takenCluster key buf 0 g.perCluster with
      | some false => return false
      | some true => do
        let _ ← readFatEntry cluster
        return true
      | none => do
        let next ← readFatEntry cluster
        takenFrom key n next
    else return false

/-- The tails from `tail` on, `left` in number; the last one is used even if it is taken. -/
def tryTails (rounds : Nat) (parts : List UInt8 × List UInt8) (cluster : Nat) : Nat → Nat → FatM (List UInt8)
  | 0, tail => return tailedKey parts (tail - 1)
  | left + 1, tail => do
    if ← takenFrom g (tailedKey parts tail) rounds cluster then tryTails rounds parts cluster left (tail + 1)
    else return tailedKey parts tail

def fat32GenerateShortName (rounds : Nat) (fname : List UInt8) (dirCluster : Nat) : FatM (List UInt8) :=
  tryTails g rounds (shortNameParts fname) dirCluster 9999 1

/-! ## Free slots -/

/-- `run`, `run_start_cluster` and `run_start_index`. -/
structure FreeRun where
  length : Nat
  cluster : Nat
  index : Nat

def FreeRun.add (r : FreeRun) (cluster i : Nat) : FreeRun :=
  if r.length = 0 then ⟨1, cluster, i⟩ else { r with length := r.length + 1 }

inductive SlotScan where
  | found (cluster index : Nat)
  | next (r : FreeRun)

def Entry.isFree (e : Entry) : Bool := e.first == 0 || e.first == 0xE5

def freeCluster (need cluster : Nat) (buf : Mem) (i : Nat) (r : FreeRun) : Nat → SlotScan
  | 0 => .next r
  | n + 1 =>
    if (entryAt buf i).isFree then
      let r := r.add cluster i
      if need ≤ r.length then .found r.cluster r.index else freeCluster need cluster buf (i + 1) r n
    else freeCluster need cluster buf (i + 1) { r with length := 0 } n

/-- The cluster gets a successor of zeros. -/
def extendWith (cluster new : Nat) : FatM Unit := do
  writeFatEntry cluster new
  fat32WriteCluster g new fun _ => 0

def freeSlotsFrom (need : Nat) : Nat → Nat → FreeRun → FatM (Option (Nat × Nat))
  | 0, _, _ => .halt .diverges
  | n + 1, cluster, r => do
    let buf ← fat32ReadCluster g cluster fun _ => 0
    match freeCluster need cluster buf 0 r g.perCluster with
    | .found c i => return some (c, i)
    | .next r => do
      let next ← readFatEntry cluster
      if next < fat32ClusterEnd then freeSlotsFrom need n next r
      else do
        let new ← fat32AllocateCluster g
        if new = 0 then return none
        else do
          extendWith g cluster new
          freeSlotsFrom need n new r

def fat32FindFreeSlots (rounds dirCluster need : Nat) : FatM (Option (Nat × Nat)) :=
  freeSlotsFrom g need rounds dirCluster ⟨0, dirCluster, 0⟩

/-! ## Files and directories -/

def shortNameFor (rounds : Nat) (name : List UInt8) (dirCluster : Nat) : FatM (List UInt8) :=
  if fat32NameIs8dot3 name then return fat32BuildNameKey name else fat32GenerateShortName g rounds name dirCluster

def fat32Create (rounds : Nat) (parent : Node) (name : List UInt8) : FatM (Option Node) := do
  if g.readOnly then return none
  else do
    let key ← shortNameFor g rounds name parent.cluster
    match ← fat32FindFreeSlots g rounds parent.cluster (lfnCount name + 1) with
    | none => return none
    | some (slotCluster, slotIndex) => do
      let newcl ← fat32AllocateCluster g
      if newcl = 0 then return none
      else do
        let sfnCluster ← fat32WriteDirEntries g slotCluster slotIndex name key 0x20 newcl 0
        return some
          { name := name.take 255, directory := false, size := 0, mode := sIfreg + 0o644, cluster := newcl,
            parentCluster := sfnCluster }

/-- A cluster with the entries `.` and `..`. -/
def dotEntries (newcl parentCl : Nat) : Mem :=
  setEntry (setEntry (fun _ => 0) 0 (shortEntry (46 :: List.replicate 10 32) 0x10 newcl 0)) 1
    (shortEntry (46 :: 46 :: List.replicate 9 32) 0x10 parentCl 0)

def fat32Mkdir (rounds : Nat) (parent : Node) (name : List UInt8) : FatM (Option Node) := do
  if g.readOnly then return none
  else do
    let newcl ← fat32AllocateCluster g
    if newcl = 0 then return none
    else do
      fat32WriteCluster g newcl (dotEntries newcl parent.cluster)
      let key ← shortNameFor g rounds name parent.cluster
      match ← fat32FindFreeSlots g rounds parent.cluster (lfnCount name + 1) with
      | none => return none
      | some (slotCluster, slotIndex) => do
        let _ ← fat32WriteDirEntries g slotCluster slotIndex name key 0x10 newcl 0
        return some
          { name := name.take 255, directory := true, size := 0, mode := sIfdir + 0o755, cluster := newcl,
            parentCluster := parent.cluster }

/-! ## Data -/

/-- The next cluster of a chain, a new one at its end; none where no cluster is free. -/
def nextOrNew (cluster : Nat) : FatM (Option Nat) := do
  let next ← readFatEntry cluster
  if next < fat32ClusterEnd then return some next
  else do
    let new ← fat32AllocateCluster g
    if new = 0 then return none
    else do
      writeFatEntry cluster new
      return some new

/-- The loop that skips to the cluster of the offset. -/
def skipClusters : Nat → Nat → FatM (Option Nat)
  | 0, cluster => return some cluster
  | n + 1, cluster => do
    match ← nextOrNew g cluster with
    | none => return none
    | some next => skipClusters n next

/-- The loop over the data; a round writes a byte at least, so the size bounds the rounds. -/
def writeLoop (data : List UInt8) : Nat → Nat → Nat → Nat → Mem → FatM Nat
  | 0, _, _, written, _ => return written
  | n + 1, cluster, cofs, written, clusbuf =>
    if written < data.length then do
      let clusbuf ←
        if cofs ≠ 0 ∨ data.length - written < g.clusterSize then fat32ReadCluster g cluster clusbuf else pure clusbuf
      let chunk := min (g.clusterSize - cofs) (data.length - written)
      let clusbuf := blit clusbuf cofs (fun x => data.getD x 0) written chunk
      fat32WriteCluster g cluster clusbuf
      if written + chunk < data.length then do
        match ← nextOrNew g cluster with
        | none => return written + chunk
        | some next => writeLoop data n next 0 (written + chunk) clusbuf
      else return written + chunk
    else return written

def updateDirEntry (rounds : Nat) (node : Node) (newSize : Nat) : FatM Unit := do
  match ← scanChain g (updateScan node.name) rounds node.parentCluster 0 .init with
  | none => return ()
  | some h => fat32WriteCluster g h.cluster (ByteMem.store32 h.buf (32 * h.index + 28) newSize)

/-- The size that `fat32_write` gives a node before it writes. -/
def grownSize (node : Node) (offset size : Nat) : Nat :=
  if node.size < u32 (offset + size) then u32 (offset + size) else node.size

/-- The result, which the code then converts to an `int`, and the node as it is left. -/
def fat32Write (rounds : Nat) (node : Node) (offset : Nat) (data : List UInt8) : FatM (Int × Node) := do
  if node.directory then return (-1, node)
  else if g.readOnly then return (-1, node)
  else do
    let node := { node with size := grownSize node offset data.length }
    let cluster ← if node.cluster < 2 then fat32AllocateCluster g else pure node.cluster
    if cluster = 0 then return (-1, node)
    else do
      let node := { node with cluster := cluster }
      match ← skipClusters g (offset / g.clusterSize) cluster with
      | none => return (-1, node)
      | some start => do
        let written ← writeLoop g data data.length start (offset % g.clusterSize) 0 fun _ => 0
        flushFatCache
        blkcacheFlush
        updateDirEntry g rounds node node.size
        return (written, node)

def fat32Truncate (rounds : Nat) (node : Node) (size : Nat) : FatM (Int × Node) := do
  if node.directory then return (-1, node)
  else if g.readOnly then return (-1, node)
  else do
    let node := { node with size := size }
    updateDirEntry g rounds node size
    return (0, node)

end Serotonin.Fat32
