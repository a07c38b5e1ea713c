import CommandLine.Attempt
import CommandLine.Text.CaseFold

/-! Reading what needs no other argument: single tokens, and values without any. -/

set_option autoImplicit false

namespace CommandLine.Reading

/-- Reads one token, for whose meaning `accept` answers; a token it refuses stays consumed. -/
def token (display : String) (accept : String → Except Failure Value) : Reader :=
  fun context cursor =>
    match cursor.next? with
    | none => .fail (.error (.missing display)) context cursor
    | some (word, rest) =>
      match accept word with
      | .error failure => .fail failure context rest
      | .ok value => .ok (some value) context rest

def literal (word : String) : Reader :=
  token word fun typed =>
    if Text.sameIgnoringCase typed word then .ok (.text word)
    else .error (.error (.invalid word typed none))

def integer (display : String) (kind : IntegerKind) : Reader :=
  token display fun typed =>
    match kind.read typed with
    | .error fault => .error (.error (.invalid display typed fault.reason))
    | .ok number => .ok (.integer kind number)

def trueWords : List String :=
  ["true", "yes", "on", "y"]

def falseWords : List String :=
  ["false", "no", "off", "n"]

def boolean (display : String) : Reader :=
  token display fun typed =>
    if trueWords.any (Text.sameIgnoringCase typed) then .ok (.boolean true)
    else if falseWords.any (Text.sameIgnoringCase typed) then .ok (.boolean false)
    else .error (.error (.invalid display typed none))

def text (display : String) (joinsRest : Bool) : Reader :=
  if joinsRest then fun context cursor =>
    if cursor.hasNext then .ok (some (.text (Line.joined cursor.remaining))) context cursor.toEnd
    else .fail (.error (.missing display)) context cursor
  else token display fun typed => .ok (.text typed)

/-- Waits on any token but `accepted`; the want of a token is an error at once. -/
def recorder (name accepted : String) : Reader :=
  token name fun typed =>
    if typed = accepted then .ok (.text typed)
    else .error (.deferred (.raised name (.invalid name typed none)))

def produced (result : Except ArgumentError Value) : Reader :=
  fun context cursor =>
    match result with
    | .error cause => .fail (.error cause) context cursor
    | .ok value => .ok (some value) context cursor

def fromInvoker (display kind : String) (projected : Option Value) : Reader :=
  produced <|
    match projected with
    | none => .error (.requiresInvoker display kind)
    | some value => .ok value

end CommandLine.Reading
