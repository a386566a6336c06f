import MyOS.Usb.Submission

/-!
# What is staged and what is published

Publishing puts the token of the transfer into DW0 of each of its TRBs, where
the Setup TRB and the Data TRB hold the addresses of their buffers. A
submission that has to enable the slot first writes the Enable Slot command
over slot 0, whatever is staged there.
-/

namespace MyOS

namespace Staging

open Xhci CmdRing

/-- The TRBs of the transfer submitted last are those of `q`, apart from the
cycle bit. -/
def Intact (cmd : CmdRing) (q : Request) : Prop :=
  cmd.lastTrbs.map (Trb.withCycle · false) = q.trbs

instance (cmd : CmdRing) (q : Request) : Decidable (Intact cmd q) :=
  inferInstanceAs (Decidable (_ = _))

theorem withCycle_false {t : Trb} (clear : t.d &&& ~~~0x1 = t.d) : t.withCycle false = t := by
  rw [Trb.withCycle, if_neg Bool.false_ne_true, clear]

/-- The staged TRBs have their cycle bit clear. -/
theorem staged_intact {cmd : CmdRing} (inside : cmd.head < cmdRingTrbs) (q : Request) :
    Intact (cmd.stage q) q := by
  have setup : (setupTrb q.setupPhys).withCycle false = setupTrb q.setupPhys := by
    have clear : ((2 : UInt32) <<< 10) &&& ~~~(0x1 : UInt32) = (2 : UInt32) <<< 10 := by decide
    exact withCycle_false clear
  have data (len : UInt32) : (dataTrb q.dataPhys len q.directionIn).withCycle false =
      dataTrb q.dataPhys len q.directionIn := by
    have clear : ∀ on : Bool, ((1 : UInt32) <<< 10 ||| if on then (1 : UInt32) <<< 1 else 0) &&&
        ~~~(0x1 : UInt32) = (1 : UInt32) <<< 10 ||| if on then (1 : UInt32) <<< 1 else 0 := by
      decide
    exact withCycle_false (clear q.directionIn)
  have status : statusTrb.withCycle false = statusTrb := by decide
  rw [Intact, lastTrbs_stage inside]
  unfold Request.trbs
  split <;> simp [setup, data, status]

/-- Every TRB published has the token in DW0. -/
theorem not_intact {cmd : CmdRing} {q : Request} (setup : q.setupPhys ≠ 0) :
    ¬ Intact cmd.published q := by
  intro intact
  have stamped : ∀ t ∈ q.trbs, t.a = cmd.tokenCounter + 1 := by
    intro t ht
    rw [← intact, lastTrbs_published] at ht
    simp only [List.map_map, List.mem_map, Function.comp_apply] at ht
    obtain ⟨u, -, rfl⟩ := ht
    rfl
  have first : q.setupPhys = cmd.tokenCounter + 1 :=
    stamped (setupTrb q.setupPhys) (by unfold Request.trbs; split <;> simp)
  have last : 0 = cmd.tokenCounter + 1 :=
    stamped statusTrb (by unfold Request.trbs; split <;> simp)
  exact setup (first.trans last.symm)

/-- No submission publishes a transfer as it was staged. -/
theorem setup_pointer_lost (ctl : Controller) {x : Xhci} (enable : x.hwEnable = true)
    {q : Request} (setup : q.setupPhys ≠ 0) {user : Option Mem}
    (done : (stageAndSubmit ctl x q user).ret = 0) :
    ¬ Intact (stageAndSubmit ctl x q user).x.cmd q := by
  rcases prepared : xhciPrepareControlTransfer x q with ⟨y, trbs⟩
  simp only [stageAndSubmit, prepared] at done ⊢
  by_cases failed : trbs < 0
  · rw [if_pos failed] at done
    cases done
  · obtain ⟨⟨cmd, ring, staged⟩, hw⟩ := prepare_spec prepared failed
    rw [if_neg failed] at done ⊢
    obtain ⟨kept, start⟩ := stage_staged cmd q
    rw [← staged] at kept start
    obtain ⟨result, -, published⟩ :=
      submit_spec ctl (hw.trans enable) (kept ▸ ring) start ⟨q.data, user, q.dataLen, q.directionIn⟩
    rw [done] at result
    have placed : (placeContext y).2 = true := by
      by_contra denied
      rw [if_neg denied] at result
      cases result
    rw [if_pos placed] at published
    intro intact
    have same := congrArg lastTrbs published
    have lost : ¬ Intact y.ready.published q := not_intact setup
    exact lost ((congrArg (List.map (Trb.withCycle · false)) same).symm.trans intact)

def setupOnly : Request := ⟨0x01300000, 0, 0, 0, false⟩

/-- The first transfer after boot: its Setup TRB has become the Enable Slot
command, and its Status TRB carries the token. -/
theorem enable_slot_over_setup :
    (stageAndSubmit prompt .boot setupOnly none).ret = 0 ∧
      (stageAndSubmit prompt .boot setupOnly none).x.cmd.lastTrbs =
        [⟨1, 0, 0, (9 : UInt32) <<< 10 ||| 1⟩, ⟨1, 0, 0, (3 : UInt32) <<< 10 ||| 1⟩] ∧
      ¬ Intact (stageAndSubmit prompt .boot setupOnly none).x.cmd setupOnly := by
  decide +kernel

theorem setup_pointer_lost_first :
    ¬ Intact (stageAndSubmit prompt .boot setupOnly none).x.cmd setupOnly :=
  setup_pointer_lost prompt rfl (by decide) (by decide +kernel)

end Staging

end MyOS
