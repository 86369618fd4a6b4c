/-!
# Themes

The colours of a drawing.
-/

namespace CallAtlas.Drawing

/-- The colours of the drawings of one run. -/
structure Theme where
  background : String := "#F5F5F5"
  nodeFill : String := "white"
  nodeBorder : String := "#1A1A1A"
  textColor : String := "#1A1A1A"
  /-- Calls whose target is known when they are written. -/
  edgeDirect : String := "#424242"
  /-- Virtual calls to the method they name. -/
  edgeVirtual : String := "#0B3D91"
  /-- Virtual calls to a method that overrides it. -/
  edgeOverride : String := "#9E9E9E"
  edgeDynamic : String := "#00695C"
  /-- Calls to methods outside. -/
  edgeExternal : String := "#E65100"
  entryBorder : String := "#0B3D91"
  /-- Methods without code. -/
  abstractFill : String := "#ECEFF1"
  externalText : String := "#9E9E9E"
  clusterBorder : String := "#BDBDBD"
  clusterLabel : String := "#757575"
  condTrue : String := "#0B3D91"
  condFalse : String := "#FC3D21"
  deriving DecidableEq, Repr

/-- The theme used unless a caller gives another: few colours, thin lines. -/
def Theme.standard : Theme := {}

end CallAtlas.Drawing
