import Zephyrtastic.Preset.Refused

/-!
# The band a node transmits in

The frequency plan puts the centre of the slot half a preset's bandwidth into the
slot. What the node occupies is as wide as the modem is set, which a custom
section sets apart from its preset number.
-/

namespace Zephyrtastic.Preset

open Channels (Slot Channel Table Modem ModemPreset)

variable {F P S : Type}

/-- A property of the region's rows, of the bandwidth of the preset and of the number of slots that
the section has. -/
def LoraConfig.OnPlan (c : LoraConfig F P) (p : RegionFreq → Profile → Nat → Nat → Prop) : Prop :=
  ∃ rf prof, regionFreq c.region = some rf ∧ profileOf c.region = some prof ∧
    let presetHz := (presetToParams c.modemPreset false).bandwidthHz
    p rf prof presetHz (numSlots (rf.span prof) (prof.slotWidth presetHz))

/-- The condition on a section: the modem has room in the band at the first and at the last of the
slots that a name can pick. -/
def LoraConfig.Fits (c : LoraConfig F P) : Prop :=
  c.OnPlan fun rf prof presetHz n =>
    rf.HasRoom prof presetHz c.params.bandwidthHz (rf.overrideSlot.range n c.modem).1 ∧
      rf.HasRoom prof presetHz c.params.bandwidthHz (rf.overrideSlot.range n c.modem).2

variable {c : LoraConfig F P}

namespace Node

variable {b : Build F} {s : Node F P S}

end Node

end Zephyrtastic.Preset
