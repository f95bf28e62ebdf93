import Aloof.Framework.Stuffing

namespace Aloof

open Framework

/-- END, ESCAPE, and what stands for them behind an ESCAPE. -/
def slipMarks : Marks UInt8 := ⟨192, 219, 220, 221, by decide⟩

end Aloof
