import CommandLine.Argument.Basic
import CommandLine.Usage

/-! What is known of an argument before any token is read. -/

set_option autoImplicit false

namespace CommandLine

structure Info where
  name : String
  display : String
  optional : Bool
  fallback : Bool
  /-- The format without brackets, empty for what is hidden. -/
  reduced : String
  format : String := Usage.bracketed reduced optional
  deriving DecidableEq

namespace Info

def leaf (label : Label) : Info where
  name := label.name
  display := label.shown
  optional := false
  fallback := false
  reduced := label.shown

def producer (label : Label) : Info where
  name := label.name
  display := label.shown
  optional := true
  fallback := false
  reduced := ""

def word (name text : String) : Info where
  name := name
  display := name
  optional := false
  fallback := false
  reduced := text
  format := text

def waiting (name : String) : Info where
  name := name
  display := name
  optional := false
  fallback := true
  reduced := name

def omittable (inner : Info) : Info where
  name := inner.name
  display := inner.display
  optional := true
  fallback := inner.fallback
  reduced := inner.reduced

/-- What the user types before the value of a named argument. -/
def lead (inner : Info) : String :=
  inner.display ++ "="

def named (inner : Info) : Info where
  name := inner.name
  display := inner.display
  optional := inner.optional
  fallback := inner.fallback
  reduced := inner.lead ++ "..."

def withProducer (primary producer : Info) : Info where
  name := primary.name
  display := primary.display
  optional := primary.optional || producer.optional
  fallback := true
  reduced := primary.reduced

def sequence (label : Label) (parts : List Info) (joinsFormats : Bool) : Info :=
  let optional := parts.all (·.optional)
  let joined := Usage.joined " " (parts.map (·.format))
  { name := label.name
    display := label.shown
    optional := optional
    fallback := false
    reduced := if joinsFormats then joined else label.shown
    format := if joinsFormats then joined else Usage.bracketed label.shown optional }

def firstOf (label : Label) (alternatives : List Info) (style : AlternationStyle) : Info where
  name := label.name
  display := label.shown
  optional := alternatives.any (·.optional)
  fallback := alternatives.any (·.fallback)
  reduced :=
    match style with
    | .listed => Usage.joined "|" (alternatives.map (·.reduced))
    | .reversed => Usage.joined "|" (alternatives.map (·.reduced)).reverse
    | .displayName => label.shown

end Info

namespace Argument

variable {σ : Type}

mutual

def info : Argument σ → Info
  | .literal name word => Info.word name word
  | .integer label _ => Info.leaf label
  | .text label _ => Info.leaf label
  | .boolean label => Info.leaf label
  | .recorder name _ => Info.waiting name
  | .fixed label _ => Info.producer label
  | .fromInvoker label _ _ => Info.producer label
  | .targeted label _ => Info.producer label
  | .optional inner => inner.info.omittable
  | .named inner => inner.info.named
  | .mapped inner _ => inner.info
  | .fallback primary producer => primary.info.withProducer producer.info
  | .sequence label parts _ joinsFormats => Info.sequence label (infos parts) joinsFormats
  | .firstOf label alternatives style => Info.firstOf label (infos alternatives) style
  | .objectId rules _ => Info.leaf rules.label
  | .objectById rules _ _ => Info.leaf rules.label

def infos : List (Argument σ) → List Info
  | [] => []
  | argument :: rest => argument.info :: infos rest

end

theorem infos_eq_map (arguments : List (Argument σ)) : infos arguments = arguments.map info := by
  induction arguments with
  | nil => rfl
  | cons argument rest ih => simp [infos, ih]

def name (argument : Argument σ) : String :=
  argument.info.name

def display (argument : Argument σ) : String :=
  argument.info.display

def isOptional (argument : Argument σ) : Bool :=
  argument.info.optional

def isFallback (argument : Argument σ) : Bool :=
  argument.info.fallback

def reduced (argument : Argument σ) : String :=
  argument.info.reduced

def format (argument : Argument σ) : String :=
  argument.info.format

end Argument

end CommandLine
