import AliasErasure.Text.Split

set_option autoImplicit false

/-! # The alias marker

A message is marked as an alias by a marker text in the comment above it.
-/

namespace AliasErasure

/-- The marker used when none is chosen. -/
def defaultMarker : String := "protobuf:alias"

/-- Whether a comment holds the marker. The empty marker marks nothing. -/
def hasMarker (marker comment : String) : Bool :=
  marker != "" && Text.occursIn marker.toList comment.toList

end AliasErasure
