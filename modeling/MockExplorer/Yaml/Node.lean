import MockExplorer.Yaml.Token

/-!
# YAML documents

Tokens become a tree of scalars, sequences and mappings. A missing key, value or document is an empty
plain scalar.
-/

namespace MockExplorer.Yaml

inductive Node where
  | scalar (text : String) (isPlain : Bool)
  | sequence (items : List Node)
  | mapping (entries : List (Node × Node))
deriving Inhabited

/-- What stands where nothing is written. -/
def Node.missing : Node := .scalar "" true

/-- Tokens that cannot start the key or value of a block mapping. -/
def endsBlockEntry : List Token → Bool
  | .key :: _ | .value :: _ | .blockEnd :: _ => true
  | _ => false

/-- Whether an item of the flow collection that ends with `closing` ends here. -/
def endsFlowItem (closing : Token) : List Token → Bool
  | t :: _ => t = .flowEntry || t = closing
  | [] => false

mutual

/-- Reads a node. Block collections stand only where `block` allows them; a sequence at the indentation of
its key has no brackets of its own. -/
def readNode : (fuel : Nat) → (block indentless : Bool) → List Token → Option (Node × List Token)
  | 0, _, _, _ => none
  | fuel + 1, block, indentless, ts =>
    match ts with
    | .scalar text isPlain :: rest => some (.scalar text isPlain, rest)
    | .flowSequenceStart :: rest => (readFlowSequence fuel true rest).map fun (ns, ts) => (.sequence ns, ts)
    | .flowMappingStart :: rest => (readFlowMapping fuel true rest).map fun (es, ts) => (.mapping es, ts)
    | .blockEntry :: _ =>
      if indentless then (readIndentless fuel ts).map fun (ns, ts) => (.sequence ns, ts) else none
    | .sequenceStart :: rest =>
      if block then (readBlockSequence fuel rest).map fun (ns, ts) => (.sequence ns, ts) else none
    | .mappingStart :: rest =>
      if block then (readBlockMapping fuel rest).map fun (es, ts) => (.mapping es, ts) else none
    | _ => none

/-- A key or value of a block mapping, which may be missing. -/
def readBlockPart : (fuel : Nat) → List Token → Option (Node × List Token)
  | 0, _ => none
  | fuel + 1, ts => if endsBlockEntry ts then some (.missing, ts) else readNode fuel true true ts

/-- The entries of a block mapping up to its end. -/
def readBlockMapping : (fuel : Nat) → List Token → Option (List (Node × Node) × List Token)
  | 0, _ => none
  | fuel + 1, ts =>
    match ts with
    | .blockEnd :: rest => some ([], rest)
    | .key :: rest => do
      let (k, ts) ← readBlockPart fuel rest
      let (v, ts) ← match ts with
        | .value :: rest => readBlockPart fuel rest
        | ts => some (.missing, ts)
      let (es, ts) ← readBlockMapping fuel ts
      return ((k, v) :: es, ts)
    | _ => none

/-- The items of a block sequence up to its end. -/
def readBlockSequence : (fuel : Nat) → List Token → Option (List Node × List Token)
  | 0, _ => none
  | fuel + 1, ts =>
    match ts with
    | .blockEnd :: rest => some ([], rest)
    | .blockEntry :: rest => do
      let (n, ts) ← match rest with
        | .blockEntry :: _ | .blockEnd :: _ => some (.missing, rest)
        | _ => readNode fuel true false rest
      let (ns, ts) ← readBlockSequence fuel ts
      return (n :: ns, ts)
    | _ => none

/-- The items of a sequence without brackets of its own. -/
def readIndentless : (fuel : Nat) → List Token → Option (List Node × List Token)
  | 0, _ => none
  | fuel + 1, ts =>
    match ts with
    | .blockEntry :: rest => do
      let (n, ts) ← match rest with
        | .blockEntry :: _ | .key :: _ | .value :: _ | .blockEnd :: _ => some (.missing, rest)
        | _ => readNode fuel true false rest
      let (ns, ts) ← readIndentless fuel ts
      return (n :: ns, ts)
    | ts => some ([], ts)

/-- The value of an entry in a flow collection, which may be missing. -/
def readFlowValue : (fuel : Nat) → (closing : Token) → List Token → Option (Node × List Token)
  | 0, _, _ => none
  | fuel + 1, closing, ts =>
    match ts with
    | .value :: rest =>
      if endsFlowItem closing rest then some (.missing, rest) else readNode fuel false false rest
    | ts => some (.missing, ts)

/-- The items of a flow sequence up to its bracket. An item may be a single entry of a mapping; where the
key of one is missing after a question mark, the colon, comma or bracket there stands for it and has no
other meaning. -/
def readFlowSequence : (fuel : Nat) → (first : Bool) → List Token → Option (List Node × List Token)
  | 0, _, _ => none
  | fuel + 1, first, ts =>
    match ts with
    | .flowSequenceEnd :: rest => some ([], rest)
    | ts => do
      let ts ← if first then some ts else
        match ts with
        | .flowEntry :: rest => some rest
        | _ => none
      match ts with
      | .flowSequenceEnd :: rest => return ([], rest)
      | .key :: rest =>
        let (k, ts) ← match rest with
          | .value :: more | .flowEntry :: more | .flowSequenceEnd :: more => some (.missing, more)
          | _ => readNode fuel false false rest
        let (v, ts) ← readFlowValue fuel .flowSequenceEnd ts
        let (ns, ts) ← readFlowSequence fuel false ts
        return (.mapping [(k, v)] :: ns, ts)
      | ts =>
        let (n, ts) ← readNode fuel false false ts
        let (ns, ts) ← readFlowSequence fuel false ts
        return (n :: ns, ts)

/-- The entries of a flow mapping up to its brace. -/
def readFlowMapping :
    (fuel : Nat) → (first : Bool) → List Token → Option (List (Node × Node) × List Token)
  | 0, _, _ => none
  | fuel + 1, first, ts =>
    match ts with
    | .flowMappingEnd :: rest => some ([], rest)
    | ts => do
      let ts ← if first then some ts else
        match ts with
        | .flowEntry :: rest => some rest
        | _ => none
      match ts with
      | .flowMappingEnd :: rest => return ([], rest)
      | .key :: rest =>
        let (k, ts) ← match rest with
          | .value :: _ | .flowEntry :: _ | .flowMappingEnd :: _ => some (.missing, rest)
          | _ => readNode fuel false false rest
        let (v, ts) ← readFlowValue fuel .flowMappingEnd ts
        let (es, ts) ← readFlowMapping fuel false ts
        return ((k, v) :: es, ts)
      | ts =>
        let (k, ts) ← readNode fuel false false ts
        let (es, ts) ← readFlowMapping fuel false ts
        return ((k, .missing) :: es, ts)

end

/-- What follows a document: an end marker or nothing, then nothing more. -/
def endOfStream : List Token → Bool
  | [] => true
  | .documentEnd :: rest => endOfStream rest
  | _ => false

/-- The only document of a stream of tokens; an empty stream holds none. -/
def document? (ts : List Token) : Option (Option Node) :=
  match ts with
  | [] => some none
  | .documentStart :: rest =>
    match rest with
    | [] | .documentEnd :: _ => if endOfStream rest then some (some .missing) else none
    | _ =>
      match readNode (4 * rest.length + 4) true false rest with
      | some (n, ts) => if endOfStream ts then some (some n) else none
      | none => none
  | ts =>
    match readNode (4 * ts.length + 4) true false ts with
    | some (n, ts) => if endOfStream ts then some (some n) else none
    | none => none

/-- The only document of a text. -/
def read? (text : String) : Option (Option Node) := (tokens? text).bind document?

end MockExplorer.Yaml
