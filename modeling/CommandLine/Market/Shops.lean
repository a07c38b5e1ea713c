import CommandLine.Argument.Build
import CommandLine.Command.Basic
import CommandLine.Text.CaseFold

/-! A small market as an application: players, shops, and the commands about them. -/

set_option autoImplicit false

namespace CommandLine.Market

structure Shop where
  id : Nat
  name : String
  owner : String
  deriving DecidableEq

def shops : List Shop :=
  [⟨1, "bakery", "alice"⟩, ⟨2, "forge", "bob"⟩, ⟨12, "market", "alice"⟩, ⟨21, "tavern", "carol"⟩]

def players : List String :=
  ["alice", "bob", "carol"]

structure Player where
  name : String
  target : Option Nat

def countKind : IntegerKind :=
  ⟨false, 32, false⟩

def coordinateKind : IntegerKind :=
  ⟨true, 32, false⟩

namespace Shop

def idValue (id : Nat) : Value :=
  .integer countKind id

def toValue (shop : Shop) : Value :=
  .object (idValue shop.id) shop.name [("owner", .text shop.owner)]

end Shop

def shopIds : IdSource Player where
  render := Value.shown
  suggestions := fun _ _ typed =>
    (shops.filter fun shop => Text.startsWith (toString shop.id) typed).map fun shop =>
      Shop.idValue shop.id
  pinned := fun input _ typed =>
    (input.invoker.target.toList.filter fun id => Text.startsWith (toString id) typed).map
      Shop.idValue

def shopNames : IdSource Player where
  render := Value.shown
  suggestions := fun _ _ typed =>
    (shops.filter fun shop => Text.startsIgnoringCase shop.name typed).map fun shop =>
      .text shop.name
  pinned := fun _ _ _ => []

def shopById (id : Value) : Option Shop :=
  shops.find? fun shop => Shop.idValue shop.id = id

def shopByName (name : Value) : Option Shop :=
  shops.find? fun shop => Text.sameIgnoringCase shop.name name.shown

def targetedShop (input : Input Player) (_ : Context) : Except ArgumentError Value :=
  match input.invoker.target.bind fun id => shops.find? (·.id = id) with
  | some shop => .ok shop.toValue
  | none => .error (.requiresInvoker "shop" "player looking at a shop")

def knownPlayer (name : Value) : Except ArgumentError Value :=
  if players.any (Text.sameIgnoringCase · name.shown) then .ok (.text (Text.lower name.shown))
  else .error (.invalid "player" name.shown (some "unknown player"))

def plain (name : String) : Label :=
  ⟨name, none⟩

def shopFrom (find : Value → Option Shop) : ObjectRules Player :=
  ⟨plain "shop", fun _ _ id => .ok ((find id).map Shop.toValue), .any⟩

def shopArgument : Argument Player :=
  Argument.orTargeted
    (.firstOf (plain "shop")
      [.objectById (shopFrom shopById) ⟨plain "shop", shopIds, .any, 0⟩
          (.integer (plain "shop-id") countKind),
        .objectById (shopFrom shopByName) ⟨plain "shop", shopNames, .any, 1⟩
          (.text (plain "shop-name") false)]
      .displayName)
    targetedShop

def playerArgument : Argument Player :=
  Argument.orInvoker (.mapped (.text (plain "player") false) knownPlayer) "player"
    fun player => some (.text player.name)

def remove : Command Player :=
  ⟨[.literal "remove" "remove", shopArgument, .integer (plain "amount") countKind], by decide⟩

def list : Command Player :=
  ⟨[.literal "list" "list", playerArgument,
      Argument.orDefault (.integer (plain "page") countKind) (.integer countKind 1)], by decide⟩

def teleport : Command Player :=
  ⟨[.literal "tp" "tp", .integer (plain "x") coordinateKind,
      .integer (plain "y") coordinateKind], by decide⟩

end CommandLine.Market
