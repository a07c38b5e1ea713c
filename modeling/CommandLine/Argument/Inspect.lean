import CommandLine.Argument.Info

/-! A developer's view of an argument. -/

set_option autoImplicit false

namespace CommandLine

namespace Label

def inspect (label : Label) : String :=
  Text.record "ArgumentName"
    [("name", Text.quoted label.name),
      ("display_name", Text.optional (label.display.map Text.quoted))] false

end Label

namespace Argument

variable {σ : Type}

/-- Groups show the names of their members, and what belongs to the application stays hidden. -/
def inspect : Argument σ → String
  | .literal name word =>
    Text.record "Literal"
      [("name", (Label.mk name none).inspect), ("literal", Text.quoted word)] false
  | .integer label _ => Text.record "Integer" [("name", Text.quoted label.name)] false
  | .text label joinsRest =>
    Text.record "Text" [("name", label.inspect), ("join_remaining", toString joinsRest)] false
  | .boolean label => Text.record "Boolean" [("name", label.inspect)] false
  | .recorder name accepted =>
    Text.record "Recorder" [("name", Text.quoted name), ("accept", Text.quoted accepted)] false
  | .fixed label value =>
    Text.record "FixedValue"
      [("name", label.inspect), ("value", "Val(" ++ Text.quoted value.shown ++ ")")] false
  | .fromInvoker label kind _ =>
    Text.record "InvokerSource"
      [("name", Text.quoted label.name), ("kind", Text.quoted kind)] true
  | .targeted label _ => Text.record "TargetedSource" [("name", Text.quoted label.name)] true
  | .optional inner => Text.record "Optional" [("argument", inner.inspect)] false
  | .named inner => Text.record "Named" [("argument", inner.inspect)] false
  | .mapped inner _ => Text.record "Transform" [("argument", inner.inspect)] true
  | .fallback primary _ => Text.record "FallbackArgument" [("argument", primary.inspect)] true
  | .sequence label parts _ _ =>
    Text.record "Sequence"
      [("name", Text.quoted label.name), ("arguments", Text.quotedList (parts.map (·.name)))] true
  | .firstOf label alternatives _ =>
    Text.record "FirstOf"
      [("name", Text.quoted label.name),
        ("arguments", Text.quotedList (alternatives.map (·.name)))] true
  | .objectId .. => "ObjectId"
  | .objectById .. => "ObjectById"

end Argument

end CommandLine
