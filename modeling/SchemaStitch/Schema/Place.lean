import SchemaStitch.Document.Parser
import SchemaStitch.Document.Tokens
import SchemaStitch.Schema.Build

/-! # Where a directive stands in a text

    Nodes do not know where they were read.  A message about an argument of a directive
    shows its place, so the place is found again: the text is read once more, the node is
    looked up in it by name, and the tokens before the argument are counted. -/

namespace SchemaStitch

/-- How many tokens of arguments stand before the value of one of them. -/
def argumentIndex? (name : Text) : List Argument → Option Nat
  | [] => none
  | argument :: rest =>
      if argument.name = name then some 2
      else (argumentIndex? name rest).map (argument.tokens.length + ·)

namespace Site

/-- How many tokens of directives stand before the value of the argument that is meant, or
    before the directive if it has no such argument. -/
def indexInDirectives? (site : Site) : List Directive → Option Nat
  | [] => none
  | directive :: rest =>
      if directive.name = site.directive then
        some (match argumentIndex? site.directiveArgument directive.arguments with
          | some index => 3 + index
          | none => 0)
      else (site.indexInDirectives? rest).map (directive.tokens.length + ·)

/-- How many tokens of argument definitions stand before the place. -/
def indexInArguments? (site : Site) (name : Text) : List InputValue → Option Nat
  | [] => none
  | argument :: rest =>
      if argument.name = name then
        (site.indexInDirectives? argument.directives).map (argument.leadingTokens.length + ·)
      else (site.indexInArguments? name rest).map (argument.tokens.length + ·)

/-- How many tokens of a member stand before the place. -/
def indexInMember? (site : Site) : Member → Option Nat
  | .field field =>
      match site.argument with
      | none => (site.indexInDirectives? field.directives).map (field.leadingTokens.length + ·)
      | some name =>
          (site.indexInArguments? name field.arguments).map
            ((descriptionTokens field.description).length + 2 + ·)
  | .input input =>
      (site.indexInDirectives? input.directives).map (input.leadingTokens.length + ·)
  | .value value =>
      (site.indexInDirectives? value.directives).map (value.leadingTokens.length + ·)

/-- How many tokens of members stand before the place. -/
def indexInMembers? (site : Site) (name : Text) : List Member → Option Nat
  | [] => none
  | member :: rest =>
      if member.name = name then site.indexInMember? member
      else (site.indexInMembers? name rest).map (member.tokens.length + ·)

/-- How many tokens of a type without its description stand before the place. -/
def indexInType? (site : Site) (type : TypeDefinition) : Option Nat :=
  match type, site.member with
  | .scalar scalar, none => (site.indexInDirectives? scalar.directives).map (2 + ·)
  | .block block, some name =>
      (site.indexInMembers? name (Entry.nodes block.members)).map
        (block.headerTokens.length + 1 + ·)
  | _, _ => none

/-- How many tokens of a definition stand before the place. -/
def indexIn? (site : Site) (definition : Definition) : Option Nat :=
  match site.owner, definition with
  | .type name, .type type =>
      if type.name = name then
        (site.indexInType? type).map ((descriptionTokens type.description).length + ·)
      else none
  | .type name, .extendType type =>
      if type.name = name then (site.indexInType? type).map (1 + ·) else none
  | .directive name, .directive directive =>
      if directive.name = name then
        (site.argument.bind fun argument => site.indexInArguments? argument directive.arguments).map
          ((descriptionTokens directive.description).length + 4 + ·)
      else none
  | _, _ => none

/-- Tokens of a definition that its own sequence of tokens leaves out before its members: an
    ampersand before the first interface. -/
def leftOut (definition : Definition) (lexemes : List Lexeme) : Nat :=
  let before (type : TypeDefinition) (start : Nat) : Nat :=
    match type with
    | .block block =>
        if block.interfaces.isEmpty then 0
        else match lexemes[start + 3]? with
          | some lexeme =>
              match lexeme.token with
              | .ok (.punctuator .ampersand) => 1
              | _ => 0
          | none => 0
    | _ => 0
  match definition with
  | .type type => before type (descriptionTokens type.description).length
  | .extendType type => before type 1
  | _ => 0

/-- The offset of the place in a text, if the text holds it. -/
def offset? (site : Site) (source : Text) : Option Nat :=
  match Document.parseSpans source with
  | .error _ => none
  | .ok spans =>
      spans.findSome? fun (definition, start, _) => do
        let index ← site.indexIn? definition
        let lexemes := (Lexer.lexemes source).dropWhile fun lexeme => lexeme.start < start
        let lexeme ← lexemes[index + leftOut definition lexemes]?
        pure lexeme.start

/-- The excerpt for the place from the first of the texts that holds it. -/
def excerpt? (site : Site) (sources : List Text) : Option Text :=
  sources.findSome? fun source => (site.offset? source).map (excerpt source)

end Site

end SchemaStitch
