import LineScript.Block.Store
import LineScript.Text.Shown

/-!
# Outline of a block tree

One line for every block and for every element that is not a block, indented by depth.
-/
namespace LineScript

def indented (depth : Nat) (line : String) : String :=
  Text.repeated (2 * depth) ' ' ++ line ++ "\n"

namespace Store

variable (s : Store)

def elementLabel : Element → String
  | .text content => "text " ++ Text.shown content
  | .block child => s!"#{child}"
  | .value content => s!"value {content.kind.name} {content.display}"
  | .method call => s!"call {call.head.name}.{call.method}"
  | .statement content => content.label

def outlineWithin : Nat → Nat → BlockId → String
  | 0, _, _ => ""
  | bound + 1, depth, id =>
    match s.get? id with
    | none => indented depth s!"<missing #{id}>"
    | some block =>
      let closed := if block.closed then " closed" else ""
      let heading := indented depth s!"#{id} {block.kind.label}{closed}"
      let handler :=
        match block.kind with
        | .evaluation handler =>
          indented (depth + 1) "catch:" ++ outlineWithin bound (depth + 2) handler
        | _ => ""
      let elements := block.elements.map fun
        | .block child => outlineWithin bound (depth + 1) child
        | other => indented (depth + 1) (elementLabel other)
      heading ++ handler ++ String.join elements

def outline (id : BlockId) : String :=
  s.outlineWithin (s.size + 1) 0 id

end Store

end LineScript
