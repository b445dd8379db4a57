import HiCore.Trace.Entries
import HiCore.Trace.Program

-- Every write-back reaches the entry of the instruction that produced it.
namespace HiCore.Run

open Rob (WbUnit)
open SlotState

variable (r : Run)

theorem pc_resultInfo (d : Nat) : (r.resultInfo d).pc = (r.st d).if2de.pc := by
  have hw : (Issue.wbInfo (r.info d)).pc = (r.st d).if2de.pc :=
    congrArg WbInfo.pc (Decode.wbInfo_bus (r.st d).operands (r.st d).rob.tail)
  rw [resultInfo]
  split
  · exact hw
  · exact hw

-- The entry that a write-back finds under its pointer.
theorem owner_of_hits (t : Nat) (u : WbUnit) (n : BitVec 4)
    (h : ((r.st t).robIn.port u).hits n = true) :
    (r.st t).rob.state n = MAPPED_S ∧ r.WritesBack t u n (r.owner t n) := by
  obtain ⟨d, hd⟩ := r.writesBack_of_hits t u n h
  obtain ⟨hs, rfl⟩ := (r.tracked t).owner_of_hits (fun v _ => r.lawful v) u n d hd
  exact ⟨hs, hd⟩

-- A waiting entry has not been hit before.
theorem hits_once (t v : Nat) (u w : WbUnit) (n : BitVec 4) (htv : t < v)
    (hu : ((r.st t).robIn.port u).hits n = true) (hw : ((r.st v).robIn.port w).hits n = true) :
    r.owner t n ≠ r.owner v n := by
  intro he
  have hm : ∀ t u, ((r.st t).robIn.port u).hits n = true → n ∈ (r.st t).rob.window :=
    fun t u h => r.mem_of_mapped t n (r.owner_of_hits t u n h).1
  have hwait := (r.holds v n (hm v w hw)).waits (by
    rw [r.rob_st]
    exact (r.owner_of_hits v w n hw).1) t
  have hlt : r.owner v n < t := he ▸ r.owner_lt t n (hm t u hu)
  have hno : Rob.wbWen (r.st t).robIn n = false := hwait hlt htv
  rw [(Rob.wbWen_iff _ _).mpr ⟨u, hu⟩] at hno
  exact Bool.noConfusion hno

-- The write-back that an entry has had.
theorem written_owner (t : Nat) (n : BitVec 4) (hm : n ∈ (r.st t).rob.window)
    (hs : (r.st t).rob.state n = WRITEBACK_S) :
    ∃ w u, r.owner t n < w ∧ w < t ∧ r.WritesBack w u n (r.owner t n) ∧
      (r.st t).rob.info n = r.resultInfo (r.owner t n) := by
  obtain ⟨w, u, hw⟩ := (r.holds t n hm).written (by rw [r.rob_st]; exact hs)
  obtain ⟨-, ho⟩ := r.live_between w t n hm hw.after hw.before.le
  obtain ⟨-, hd⟩ := r.owner_of_hits w u n hw.hits
  rw [ho] at hd
  have hi := hw.info
  rw [r.rob_st] at hi
  exact ⟨w, u, hw.after, hw.before, hd, hi.trans hd.info⟩

-- The entry that commits shows what its instruction produced.
theorem info_of_commits (c : Nat) (hc : (r.st c).commits = true) :
    (r.st c).rob.info (r.st c).rob.head = r.resultInfo (r.owner c (r.st c).rob.head) := by
  have hm := r.head_mem c hc
  obtain ⟨-, -, -, -, -, hi⟩ := r.written_owner c _ hm (Rob.ren_state (i := (r.st c).robIn) hc)
  exact hi

-- Only the LSU adds to what decode has reported.
theorem excp_of_commits (c : Nat) (hc : (r.st c).commits = true)
    (hu : r.unitOf (r.owner c (r.st c).rob.head) ≠ .lsu) :
    ((r.st c).rob.info (r.st c).rob.head).excp =
      Decode.deExcp (r.st (r.owner c (r.st c).rob.head)).if2de := by
  rw [r.info_of_commits c hc, r.resultInfo_of_ne _ hu]
  exact congrArg WbInfo.excp (Decode.wbInfo_bus (r.st (r.owner c (r.st c).rob.head)).operands _)

theorem write_back_integrity (r : Run) :
    (∀ t u n, (r.st t).flush = false → ((r.st t).robIn.port u).hits n = true →
      (r.st t).rob.state n = MAPPED_S ∧
        (r.st (r.owner t n)).robWen = true ∧ (r.st (r.owner t n)).rob.tail = n ∧
        (∀ v, Decode.selects (r.st (r.owner t n)).if2de.intr v = decide (v = u)) ∧
        ((r.st t).robIn.port u).info.pc = (r.st (r.owner t n)).if2de.pc) ∧
    (∀ t u v n, (r.st t).flush = false → ((r.st t).robIn.port u).hits n = true →
      ((r.st t).robIn.port v).hits n = true → u = v) ∧
    (∀ t v u w n, t < v → (r.st t).flush = false → (r.st v).flush = false →
      ((r.st t).robIn.port u).hits n = true → ((r.st v).robIn.port w).hits n = true →
      r.owner t n ≠ r.owner v n) := by
  refine ⟨fun t u n _ h => ?_, fun t u v n _ hu hv => (r.legal t).wb_single u v n hu hv,
    fun t v u w n htv _ _ hu hw => r.hits_once t v u w n htv hu hw⟩
  obtain ⟨hs, hd⟩ := r.owner_of_hits t u n h
  have hm := r.mem_of_mapped t n hs
  refine ⟨hs, r.robWen_owner t n hm, hd.ptr, fun v => ?_, ?_⟩
  · have hu : Decode.unit (r.st (r.owner t n)).if2de.intr = u := hd.unit
    rw [Bool.eq_iff_iff, Decode.selects_iff, hu, decide_eq_true_iff]
    exact eq_comm
  · rw [hd.info, r.pc_resultInfo]

theorem write_back_storeLoad : (storeLoad.st 3).rob.state 0#4 = MAPPED_S ∧
    storeLoad.owner 3 0#4 = 1 ∧ ((storeLoad.st 3).robIn.port .alu).info.pc = 0#32 := by
  obtain ⟨hs, -, -, -, hpc⟩ := (write_back_integrity storeLoad).1 3 .alu 0#4 (by decide +kernel)
    (by decide +kernel)
  exact ⟨hs, by decide +kernel, hpc.trans (by decide +kernel)⟩

end HiCore.Run
