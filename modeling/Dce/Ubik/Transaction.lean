import Dce.Lib.FileScript
import Dce.Ubik.Buffers
import Dce.Ubik.Log

open lib

namespace dce.ubik

/-- One update of the database file in a write transaction. -/
inductive DbUpdate where
  | write (pos : Offset) (data : Block)
  | truncate (length : Offset)

def DbUpdate.toUpdate : DbUpdate → Update
  | .write pos data => .write 0 pos data
  | .truncate length => .truncate 0 length

def DbUpdate.toOp : DbUpdate → FileOp
  | .write pos data => .write pos data.val
  | .truncate length => .truncate length

/-- A write transaction on the database file: the disk with the log, the buffers,
and the length in the transaction's truncation entry for the file. -/
structure WriteTrans where
  disk : Disk
  buffers : Buffers
  truncs : Option ℕ

/-- `udisk_begin` of a write transaction. -/
def udisk_begin (order : ByteOrder) (d : Disk) (b : Buffers) : WriteTrans := ⟨udisk_LogOpcode order d LOGNEW, b, none⟩

/-- `udisk_truncate`: the shortest of the lengths asked for counts. -/
def udisk_truncate (order : ByteOrder) (t : WriteTrans) (length : Offset) : WriteTrans where
  disk := udisk_LogTruncate order t.disk (0 : Offset).toLong length.toLong
  buffers := t.buffers
  truncs :=
    match t.truncs with
    | none => some length
    | some old => if old > length then some length else some old

/-- `udisk_write`: log the data, lengthen the truncation, update the buffers. -/
def udisk_write (order : ByteOrder) (t : WriteTrans) (pos : Offset) (data : Block) : WriteTrans where
  disk := udisk_LogWriteData order t.disk (0 : Offset).toLong pos.toLong data.len.toLong data.val
  buffers := updatePages t.disk t.buffers pos data.val
  truncs := t.truncs.map fun old => if old < pos.val + data.val.length then pos.val + data.val.length else old

def WriteTrans.update (order : ByteOrder) (t : WriteTrans) : DbUpdate → WriteTrans
  | .write pos data => udisk_write order t pos data
  | .truncate length => udisk_truncate order t length

def WriteTrans.updates (order : ByteOrder) (t : WriteTrans) (script : List DbUpdate) : WriteTrans :=
  script.foldl (WriteTrans.update order) t

def DoTruncs (t : WriteTrans) : WriteTrans :=
  match t.truncs with
  | none => t
  | some length => ⟨uphys_truncate t.disk 0 length, DTrunc t.buffers length, none⟩

/-- The step of `udisk_commit` that makes the transaction durable. -/
def commitLog (order : ByteOrder) (t : WriteTrans) (version : Version) : WriteTrans :=
  { t with disk := udisk_LogEnd order t.disk version }

/-- The step of `udisk_commit` that writes the dirty pages. -/
def commitFlush (t : WriteTrans) : WriteTrans := { t with disk := DFlush t.buffers t.disk, buffers := DSync t.buffers }

/-- `udisk_commit` of a write transaction: the new version, and what becomes of the
transaction's disk and buffers. -/
def udisk_commit (order : ByteOrder) (t : WriteTrans) (version : Version) : Version × WriteTrans :=
  let version : Version := { version with counter := version.counter + 1 }
  let t := DoTruncs (commitFlush (commitLog order t version))
  (version, { t with disk := uphys_truncate (uphys_setlabel t.disk 0 version) LOGFILE 0 })

/-- The merged truncation of a script, from an entry that may be there already. -/
def mergedTruncation (entry : Option ℕ) (script : List FileOp) : Option ℕ :=
  script.foldl (fun entry op => match op with
    | .write offset data =>
      entry.map fun old => if old < offset + data.length then offset + data.length else old
    | .truncate length =>
      match entry with
      | none => some length
      | some old => if old > length then some length else some old) entry

/-- What a transaction has done before it commits: the log holds its updates, the
file is as it was, and the buffers show the bytes written last. -/
structure WriteTrans.Ran (d : Disk) (b : Buffers) (script : List DbUpdate) (t : WriteTrans) : Prop where
  log : LogIs d t.disk (encodeLongs [LOGNEW] ++ encodeUpdates (script.map DbUpdate.toUpdate))
  truncs : t.truncs = mergedTruncation none (script.map DbUpdate.toOp)
  buffered : ∀ i, dce.ubik.buffered d t.buffers i =
    (lastWritten (script.map DbUpdate.toOp) i).getD (dce.ubik.buffered d b i)
  dirty : ∀ p, p ∈ t.buffers.dirty ↔
    p ∈ b.dirty ∨ ∃ pos data, FileOp.write pos data ∈ script.map DbUpdate.toOp ∧ touches pos data.length p
  held : t.buffers.Held

theorem LogIs.db {d d' : Disk} {bytes : List Byte} (hlog : LogIs d d' bytes) : d' 0 = d 0 := hlog.other 0 (by decide)

theorem buffered_congr {d d' : Disk} (hdb : d' 0 = d 0) (b : Buffers) (i : ℕ) : buffered d' b i = buffered d b i := by
  unfold buffered DRead uphys_read
  rw [hdb]

theorem updatePages_congr {d d' : Disk} (hdb : d' 0 = d 0) (b : Buffers) (pos : ℕ) (data : List Byte) :
    updatePages d' b pos data = updatePages d b pos data := by
  induction hn : data.length using Nat.strong_induction_on generalizing b pos data with
  | _ n ih =>
    have hread : ∀ page, DRead d' b page = DRead d b page := by
      intro page
      unfold DRead uphys_read
      rw [hdb]
    rw [updatePages.eq_def d', updatePages.eq_def d]
    by_cases hdone : data = []
    · rw [dif_pos hdone, dif_pos hdone]
    · rw [dif_neg hdone, dif_neg hdone]
      have hpos : 0 < data.length := List.length_pos_of_ne_nil hdone
      have hmod : pos % 1024 < 1024 := Nat.mod_lt _ (by decide)
      simp only [hread]
      exact ih _ (by simp only [List.length_drop, UBIK_PAGESIZE]; omega) _ _ _ rfl

theorem WriteTrans.Ran.begin (order : ByteOrder) (d : Disk) (b : Buffers) (hclean : b.dirty = [])
    (hempty : (d LOGFILE).data = ByteFile.empty) : Ran d b [] (udisk_begin order d b) where
  log := logUpdates_logIs order d [] hempty
  truncs := rfl
  buffered _ := rfl
  dirty p := by simp [udisk_begin]
  held p hp := by simp [udisk_begin, hclean] at hp

theorem WriteTrans.Ran.update (order : ByteOrder) {d : Disk} {b : Buffers} {script : List DbUpdate} {t : WriteTrans}
    (hran : Ran d b script t) (update : DbUpdate) : Ran d b (script ++ [update]) (t.update order update) := by
  have hencode : encodeUpdates ((script ++ [update]).map DbUpdate.toUpdate) =
      encodeUpdates (script.map DbUpdate.toUpdate) ++ update.toUpdate.encode := by simp [encodeUpdates]
  have hlogged := hran.log.logUpdate order update.toUpdate
  rw [List.append_assoc, ← hencode] at hlogged
  cases update with
  | write pos data =>
    have hops : (script ++ [DbUpdate.write pos data]).map DbUpdate.toOp =
        script.map DbUpdate.toOp ++ [.write pos data.val] := by simp [DbUpdate.toOp]
    refine ⟨hlogged, ?_, fun i => ?_, fun p => ?_, hran.held.updatePages _ _ _⟩
    · rw [hops]
      simp only [WriteTrans.update, udisk_write, hran.truncs, mergedTruncation, List.foldl_append, List.foldl_cons,
        List.foldl_nil]
    · rw [hops, lastWritten_snoc_write]
      simp only [WriteTrans.update, udisk_write, updatePages_congr hran.log.db, buffered_updatePages]
      change (if covers pos data.val i then _ else _) = _
      by_cases hin : covers pos data.val i
      · rw [if_pos hin, if_pos hin]
        rfl
      · rw [if_neg hin, if_neg hin]
        exact hran.buffered i
    · rw [hops]
      simp only [WriteTrans.update, udisk_write, mem_dirty_updatePages, hran.dirty, List.mem_append, List.mem_singleton,
        FileOp.write.injEq]
      constructor
      · rintro (htouch | hdirty | ⟨q, bytes, hmem, htouch⟩)
        · exact Or.inr ⟨pos, data.val, Or.inr ⟨rfl, rfl⟩, htouch⟩
        · exact Or.inl hdirty
        · exact Or.inr ⟨q, bytes, Or.inl hmem, htouch⟩
      · rintro (hdirty | ⟨q, bytes, hmem | ⟨rfl, rfl⟩, htouch⟩)
        · exact Or.inr (Or.inl hdirty)
        · exact Or.inr (Or.inr ⟨q, bytes, hmem, htouch⟩)
        · exact Or.inl htouch
  | truncate length =>
    have hops : (script ++ [DbUpdate.truncate length]).map DbUpdate.toOp =
        script.map DbUpdate.toOp ++ [.truncate length] := by simp [DbUpdate.toOp]
    refine ⟨hlogged, ?_, fun i => ?_, fun p => ?_, hran.held⟩
    · rw [hops]
      simp only [WriteTrans.update, udisk_truncate, hran.truncs, mergedTruncation, List.foldl_append, List.foldl_cons,
        List.foldl_nil]
    · rw [hops, lastWritten_snoc_truncate]
      exact hran.buffered i
    · rw [hops]
      simp only [WriteTrans.update, udisk_truncate, hran.dirty, List.mem_append, List.mem_singleton, reduceCtorEq,
        or_false]

theorem WriteTrans.Ran.updates (order : ByteOrder) {d : Disk} {b : Buffers} (hclean : b.dirty = [])
    (hempty : (d LOGFILE).data = ByteFile.empty) (script : List DbUpdate) :
    Ran d b script ((udisk_begin order d b).updates order script) := by
  induction script using List.reverseRecOn with
  | nil => exact Ran.begin order d b hclean hempty
  | append_singleton script update ih =>
    have hstep := ih.update order update
    simpa [WriteTrans.updates] using hstep

end dce.ubik
