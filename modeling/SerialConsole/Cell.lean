/-!
# Cells

A cell is one value of the data stack: a signed 32-bit word whose arithmetic wraps, as it does on
the device.
-/

namespace SerialConsole

/-- One value on the data stack, in a ROM slot or typed as a number. -/
abbrev Cell := Int32

end SerialConsole
