import Keyring.Json.Token

/-!
# JSON values as trees

A tree is built from tokens by a machine with a stack of open containers. A text that stops making
sense still has a tree: the containers that are open at that place end there, and the last of them
holds what was read. A reader that walks the tree from left to right thus meets every problem of the
text in the order of the text, and may report one of its own that comes before.
-/

namespace Keyring.Json

/-- How a container ends: at its closing bracket, or where the text stops making sense. The cause is
the one for a reader that passes over the container. -/
inductive Ending
  | closed
  | broken (stop : Stop)
  deriving DecidableEq, Repr

/-- A JSON value as it is spelled, as far as the text gives it. -/
inductive Node
  | null
  | bool (value : Bool)
  | number (value : Numeral)
  | text (value : Spelling)
  | array (items : List Node) (ending : Ending)
  | object (members : List (Spelling × Node)) (ending : Ending)
  /-- No value: a reader that wants one stops here, and so does one that passes over it. -/
  | broken (read skipped : Stop)
  deriving Repr

/-- What stops a reader that passes over the value. Only the last value of a text can be incomplete,
and the containers around it end with it. -/
def Node.skipStop? : Node → Option Stop
  | .null | .bool _ | .number _ => none
  | .text value => value.cut
  | .array _ .closed | .object _ .closed => none
  | .array _ (.broken stop) | .object _ (.broken stop) => some stop
  | .broken _ skipped => some skipped

/-! ## The machine -/

/-- A container that waits for one of its values; what it has already is kept latest first. -/
inductive Frame
  | array (items : List Node)
  | object (members : List (Spelling × Node)) (key : Spelling)
  deriving Repr

/-- What may come next. -/
inductive Position
  /-- A value must come. -/
  | value
  /-- The first item of an array, or its end. -/
  | firstItem
  /-- A comma, or the end of the array. -/
  | afterItem (items : List Node)
  /-- The first key of an object, or its end. -/
  | firstKey
  /-- Another key must come. -/
  | nextKey (members : List (Spelling × Node))
  /-- The colon behind a key. -/
  | colon (members : List (Spelling × Node)) (key : Spelling)
  /-- A comma, or the end of the object. -/
  | afterMember (members : List (Spelling × Node))
  deriving Repr

/-- The state after a token: still inside the value, or at its end. -/
inductive Progress
  | inside (frames : List Frame) (position : Position)
  | done (node : Node)
  deriving Repr

/-- Ends a container whose value breaks off. -/
def Frame.cut (stop : Stop) (child : Node) : Frame → Node
  | .array items => .array (child :: items).reverse (.broken stop)
  | .object members key => .object ((key, child) :: members).reverse (.broken stop)

/-- Ends all open containers around a node that breaks off. -/
def cutAll (stop : Stop) (frames : List Frame) (node : Node) : Node :=
  frames.foldl (fun child frame => frame.cut stop child) node

/-- Puts a complete value where the innermost open container waits for it. -/
def place (frames : List Frame) (node : Node) : Progress :=
  match frames with
  | [] => .done node
  | .array items :: outer => .inside outer (.afterItem (node :: items))
  | .object members key :: outer => .inside outer (.afterMember ((key, node) :: members))

/-- The start of a value. -/
def openValue (frames : List Frame) (token : Token) : Progress :=
  match token with
  | .null => place frames .null
  | .bool value => place frames (.bool value)
  | .number value => place frames (.number value)
  | .text value =>
    match value.cut with
    | none => place frames (.text value)
    | some stop => .done (cutAll stop frames (.text value))
  | .beginArray => .inside frames .firstItem
  | .beginObject => .inside frames .firstKey
  | .broken read skipped => .done (cutAll skipped frames (.broken read skipped))
  | .endArray | .endObject | .colon | .comma =>
    .done (cutAll .malformed frames (.broken .malformed .malformed))

/-- The key of a member, behind the members before it. -/
def openMember (frames : List Frame) (members : List (Spelling × Node)) (token : Token) :
    Progress :=
  match token with
  | .text key =>
    match key.cut with
    | none => .inside frames (.colon members key)
    | some stop =>
      .done (cutAll stop frames
        (.object ((key, .broken stop stop) :: members).reverse (.broken stop)))
  | _ => .done (cutAll .malformed frames (.object members.reverse (.broken .malformed)))

def advance (frames : List Frame) (position : Position) (token : Token) : Progress :=
  match position with
  | .value => openValue frames token
  | .firstItem =>
    if token = .endArray then place frames (.array [] .closed)
    else openValue (.array [] :: frames) token
  | .afterItem items =>
    match token with
    | .comma => .inside (.array items :: frames) .value
    | .endArray => place frames (.array items.reverse .closed)
    | _ => .done (cutAll .malformed frames (.array items.reverse (.broken .malformed)))
  | .firstKey =>
    if token = .endObject then place frames (.object [] .closed)
    else openMember frames [] token
  | .nextKey members => openMember frames members token
  | .colon members key =>
    if token = .colon then .inside (.object members key :: frames) .value
    else
      .done (cutAll .malformed frames
        (.object ((key, .broken .malformed .malformed) :: members).reverse (.broken .malformed)))
  | .afterMember members =>
    match token with
    | .comma => .inside frames (.nextKey members)
    | .endObject => place frames (.object members.reverse .closed)
    | _ => .done (cutAll .malformed frames (.object members.reverse (.broken .malformed)))

/-- The node of a text that ends too early. -/
def cutShort (frames : List Frame) (position : Position) : Node :=
  cutAll .truncated frames <|
    match position with
    | .value => .broken .truncated .truncated
    | .firstItem => .array [] (.broken .truncated)
    | .afterItem items => .array items.reverse (.broken .truncated)
    | .firstKey => .object [] (.broken .truncated)
    | .nextKey members | .afterMember members => .object members.reverse (.broken .truncated)
    | .colon members key =>
      .object ((key, .broken .truncated .truncated) :: members).reverse (.broken .truncated)

/-- The value that begins a list of tokens, and the tokens behind it. -/
def build (frames : List Frame) (position : Position) : List Token → Node × List Token
  | [] => (cutShort frames position, [])
  | token :: rest =>
    match advance frames position token with
    | .inside frames position => build frames position rest
    | .done node => (node, rest)

/-- The value at the start of a text, and the tokens behind it. -/
def Node.ofText (text : List Char) : Node × List Token :=
  build [] .value (tokens text)

/-! ## Writing -/

/-- Puts a comma between every two of several token lists. -/
def commaSeparated : List (List Token) → List Token
  | [] => []
  | [last] => last
  | first :: rest => first ++ .comma :: commaSeparated rest

mutual

def Node.tokens : Node → List Token
  | .null => [.null]
  | .bool value => [.bool value]
  | .number value => [.number value]
  | .text value => [.text value]
  | .array items _ => .beginArray :: commaSeparated (itemTokens items) ++ [.endArray]
  | .object members _ => .beginObject :: commaSeparated (memberTokens members) ++ [.endObject]
  | .broken read skipped => [.broken read skipped]

def itemTokens : List Node → List (List Token)
  | [] => []
  | item :: rest => item.tokens :: itemTokens rest

def memberTokens : List (Spelling × Node) → List (List Token)
  | [] => []
  | (key, value) :: rest => (.text key :: .colon :: value.tokens) :: memberTokens rest

end

/-- The shortest text of a complete value: no blanks between tokens. -/
def Node.render (node : Node) : String :=
  String.ofList (node.tokens.flatMap Token.spell)

end Keyring.Json
