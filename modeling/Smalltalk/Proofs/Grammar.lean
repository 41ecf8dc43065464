/-
**The grammar of the language.**

Each rule of the grammar is a relation between a sequence of tokens and the tree that it spells:

    file    = class* body
    class   = 'class' (Identifier (':' Identifier)? | Keyword Identifier) '[' vars? method* ']'
    method  = 'class'? header ('[' body ']' | '<' 'primitive:' Symbol '>')
    header  = Identifier | Operator Identifier | (Keyword Identifier)+
    vars    = '|' Identifier* '|'
    body    = vars? (stat ('.'+ stat)* '.'*)?
    stat    = Identifier ':=' expr | '^' expr | expr
    expr    = binary (Keyword binary)*
    binary  = unary (Operator unary)*
    unary   = primary Identifier*
    primary = nil | true | false | self | super | Identifier | Number | '-' Number | Character
            | String | Symbol | block | array | '(' expr ')'
    block   = '[' ((':' Identifier)+ ('|' body)? | body) ']'
    array   = '{' (expr ('.' expr)* '.'?)? '}'

A minus sign has to stand directly in front of its number, and a whole number has to fit into 32
bits with a sign. What digits stand for (`digitsValue`, `Single.ofDecimal`) and what is between
quotes (`Quote.read`) has nothing to do with the reader, and nothing here says how the tokens are
read.

* `Grammar.Primary`, `Unary`, `Binary`, `Expression` — **expressions**;
* `Grammar.File` — **a whole program**.
-/

import Mathlib.Algebra.Group.Int.Defs
import Smalltalk.Tree.Parse

namespace Smalltalk.Grammar

/-! ### Names and literals -/

variable {ts : List Token}

/-- Repetition: any number of sequences of one rule, one after the other. -/
inductive Star {α : Type} (L : List Token → α → Prop) : List Token → List α → Prop where
  | nil : Star L [] []
  | snoc {ts us : List Token} {as : List α} {a : α} (h : Star L ts as) (ha : L us a) :
      Star L (ts ++ us) (as ++ [a])

theorem Star.ne_nil {α : Type} {L : List Token → α → Prop} {as : List α} (h : Star L ts as)
    (hne : ts ≠ []) : as ≠ [] := by
  cases h with
  | nil => exact absurd rfl hne
  | snoc => simp

/-- A token of a kind. -/
inductive Terminal (k : Token.Kind) : List Token → Token → Prop where
  | mk {t : Token} (h : t.kind = k) : Terminal k [t] t

/-- The variables of a body or a class: `('|' Identifier* '|')?` -/
inductive Variables : List Token → List Token → Prop where
  | none : Variables [] []
  | bars {opening closing : Token} {ts names : List Token} (hopening : opening.kind = .pipe)
      (hnames : Star (Terminal .identifier) ts names) (hclosing : closing.kind = .pipe) :
      Variables (opening :: (ts ++ [closing])) names

/-- The parameter of a block: `':' Identifier` -/
inductive Parameter : List Token → Token → Prop where
  | mk {colon name : Token} (hcolon : colon.kind = .colon) (hname : name.kind = .identifier) :
      Parameter [colon, name] name

/-- The value of a number, with a sign in front of it or not. -/
inductive Number (negative : Bool) (t : Token) : Literal → Prop where
  /-- Digits alone are a whole number, which has to be in range. -/
  | integer {value : Int} (hwhole : '.' ∉ t.text.toList)
      (hvalue : value = if negative then -(digitsValue t.text.toList : Int)
        else digitsValue t.text.toList)
      (hlow : -2 ^ 31 ≤ value) (hhigh : value < 2 ^ 31) :
      Number negative t (.integer (Int32.ofInt value))
  /-- With a point it is a float. -/
  | float {whole decimals : List Char} (htext : t.text.toList = whole ++ '.' :: decimals)
      (hwhole : '.' ∉ whole) {value : Single}
      (hvalue : value = Single.ofDecimal (digitsValue (whole ++ decimals)) decimals.length) :
      Number negative t (.float (if negative then value.neg else value))

/-- A literal that is a single token. -/
inductive Atom (t : Token) : Literal → Prop where
  | nilWord (h : t.kind = .nilWord) : Atom t .nil
  | trueWord (h : t.kind = .trueWord) : Atom t (.boolean true)
  | falseWord (h : t.kind = .falseWord) : Atom t (.boolean false)
  | selfWord (h : t.kind = .selfWord) : Atom t .receiver
  | number {value : Literal} (h : t.kind = .number) (hvalue : Number false t value) : Atom t value
  | character (h : t.kind = .character) : Atom t (.character (t.text.toList.getD 1 '\x00'))
  | string (h : t.kind = .string) : Atom t (.string (Quote.read t.text))
  | symbol (h : t.kind = .symbol) : Atom t (.symbol t.symbolText)

/-! ### Expressions and bodies -/

mutual

/-- What binds tightest. -/
inductive Primary : List Token → Expr Unit → Prop where
  | literal {t : Token} {value : Literal} (h : Atom t value) : Primary [t] (.literal t t value)
  /-- A minus sign, directly followed by a number. -/
  | negative {sign number : Token} {value : Literal} (hsign : sign.kind = .operator)
      (hminus : sign.text = "-") (hnumber : number.kind = .number)
      (hadjacent : number.start = sign.stop) (hvalue : Number true number value) :
      Primary [sign, number] (.literal sign number value)
  | superWord {t : Token} (h : t.kind = .superWord) : Primary [t] (.super t)
  | name {t : Token} (h : t.kind = .identifier) : Primary [t] (.variable t)
  | block {opening closing : Token} {ts locals : List Token} {statements : List (Statement Unit)}
      (hopening : opening.kind = .leftSquare) (hbody : Contents ts locals statements)
      (hclosing : closing.kind = .rightSquare) :
      Primary (opening :: (ts ++ [closing]))
        (.block opening [] locals statements (some closing) ())
  /-- A block with parameters and a body. -/
  | function {opening bar closing : Token} {ps names ts locals : List Token}
      {statements : List (Statement Unit)} (hopening : opening.kind = .leftSquare)
      (hparameters : Star Parameter ps names) (hsome : names ≠ []) (hbar : bar.kind = .pipe)
      (hbody : Contents ts locals statements) (hclosing : closing.kind = .rightSquare) :
      Primary (opening :: (ps ++ bar :: (ts ++ [closing])))
        (.block opening names locals statements (some closing) ())
  /-- A block with parameters alone. -/
  | bare {opening closing : Token} {ps names : List Token} (hopening : opening.kind = .leftSquare)
      (hparameters : Star Parameter ps names) (hsome : names ≠ [])
      (hclosing : closing.kind = .rightSquare) :
      Primary (opening :: (ps ++ [closing])) (.block opening names [] [] (some closing) ())
  | array {opening closing : Token} {ts : List Token} {items : List (Expr Unit)}
      (hopening : opening.kind = .leftCurly) (hitems : Items ts items)
      (hclosing : closing.kind = .rightCurly) :
      Primary (opening :: (ts ++ [closing])) (.array opening items (some closing))
  | group {opening closing : Token} {ts : List Token} {e : Expr Unit}
      (hopening : opening.kind = .leftParen) (he : Expression ts e)
      (hclosing : closing.kind = .rightParen) :
      Primary (opening :: (ts ++ [closing])) (.group opening e (some closing))

/-- `primary Identifier*`, the messages sent from left to right. -/
inductive Unary : List Token → Expr Unit → Prop where
  | primary {ts : List Token} {e : Expr Unit} (h : Primary ts e) : Unary ts e
  | send {ts : List Token} {e : Expr Unit} {selector : Token} (h : Unary ts e)
      (hselector : selector.kind = .identifier) : Unary (ts ++ [selector]) (.unary e selector)

/-- `unary (Operator unary)*`, the messages sent from left to right. -/
inductive Binary : List Token → Expr Unit → Prop where
  | unary {ts : List Token} {e : Expr Unit} (h : Unary ts e) : Binary ts e
  | send {ts us : List Token} {e argument : Expr Unit} {operator : Token} (h : Binary ts e)
      (hoperator : operator.kind = .operator) (hargument : Unary us argument) :
      Binary (ts ++ operator :: us) (.binary e operator argument)

/-- `(Keyword binary)*` -/
inductive Parts : List Token → List Token → List (Expr Unit) → Prop where
  | nil : Parts [] [] []
  | snoc {ts us keywords : List Token} {arguments : List (Expr Unit)} {keyword : Token}
      {argument : Expr Unit} (h : Parts ts keywords arguments) (hkeyword : keyword.kind = .keyword)
      (hargument : Binary us argument) :
      Parts (ts ++ keyword :: us) (keywords ++ [keyword]) (arguments ++ [argument])

/-- `binary (Keyword binary)*`, the keywords being one message. -/
inductive Expression : List Token → Expr Unit → Prop where
  | binary {ts : List Token} {e : Expr Unit} (h : Binary ts e) : Expression ts e
  | keyword {ts us keywords : List Token} {receiver : Expr Unit} {arguments : List (Expr Unit)}
      (h : Binary ts receiver) (hparts : Parts us keywords arguments) (hsome : keywords ≠ []) :
      Expression (ts ++ us) (.keyword receiver keywords arguments)

/-- `(expr '.')*` -/
inductive Elements : List Token → List (Expr Unit) → Prop where
  | nil : Elements [] []
  | snoc {ts us : List Token} {items : List (Expr Unit)} {e : Expr Unit} {dot : Token}
      (h : Elements ts items) (he : Expression us e) (hdot : dot.kind = .dot) :
      Elements (ts ++ (us ++ [dot])) (items ++ [e])

/-- The items of an array, with points between them and a possible one at the end. -/
inductive Items : List Token → List (Expr Unit) → Prop where
  | closed {ts : List Token} {items : List (Expr Unit)} (h : Elements ts items) : Items ts items
  | last {ts us : List Token} {items : List (Expr Unit)} {e : Expr Unit} (h : Elements ts items)
      (he : Expression us e) : Items (ts ++ us) (items ++ [e])

/-- `Identifier ':=' expr | '^' expr | expr` -/
inductive Sentence : List Token → Statement Unit → Prop where
  | assignment {target sign : Token} {ts : List Token} {e : Expr Unit}
      (htarget : target.kind = .identifier) (hsign : sign.kind = .assign) (he : Expression ts e) :
      Sentence (target :: sign :: ts) (.assignment target e)
  | answer {caret : Token} {ts : List Token} {e : Expr Unit} (hcaret : caret.kind = .caret)
      (he : Expression ts e) : Sentence (caret :: ts) (.answer caret e)
  | expression {ts : List Token} {e : Expr Unit} (he : Expression ts e) :
      Sentence ts (.expression e)

/-- `(stat '.'+)*` -/
inductive Sentences : List Token → List (Statement Unit) → Prop where
  | nil : Sentences [] []
  | snoc {ts us dots ds : List Token} {statements : List (Statement Unit)} {s : Statement Unit}
      (h : Sentences ts statements) (hs : Sentence us s) (hdots : Star (Terminal .dot) dots ds)
      (hsome : ds ≠ []) : Sentences (ts ++ (us ++ dots)) (statements ++ [s])

/-- Statements with points between them, and any number of points at the end. -/
inductive Statements : List Token → List (Statement Unit) → Prop where
  | closed {ts : List Token} {statements : List (Statement Unit)} (h : Sentences ts statements) :
      Statements ts statements
  | last {ts us : List Token} {statements : List (Statement Unit)} {s : Statement Unit}
      (h : Sentences ts statements) (hs : Sentence us s) : Statements (ts ++ us) (statements ++ [s])

/-- `vars? (stat ('.'+ stat)* '.'*)?` -/
inductive Contents : List Token → List Token → List (Statement Unit) → Prop where
  | mk {vs locals ts : List Token} {statements : List (Statement Unit)}
      (hlocals : Variables vs locals) (h : Statements ts statements) :
      Contents (vs ++ ts) locals statements

end

theorem Parts.ne_nil {keywords : List Token} {arguments : List (Expr Unit)}
    (h : Parts ts keywords arguments) (hne : ts ≠ []) : keywords ≠ [] := by
  cases h with
  | nil => exact absurd rfl hne
  | snoc => simp

/-! ### Definitions -/

/-- A keyword of a header and its parameter: `Keyword Identifier` -/
inductive HeaderPart : List Token → Token × Token → Prop where
  | mk {keyword parameter : Token} (hkeyword : keyword.kind = .keyword)
      (hparameter : parameter.kind = .identifier) :
      HeaderPart [keyword, parameter] (keyword, parameter)

/-- `Identifier | Operator Identifier | (Keyword Identifier)+` -/
inductive Header : List Token → Signature → Prop where
  | unary {name : Token} (h : name.kind = .identifier) : Header [name] (.unary name)
  | binary {operator parameter : Token} (hoperator : operator.kind = .operator)
      (hparameter : parameter.kind = .identifier) :
      Header [operator, parameter] (.binary operator parameter)
  | keyword {ts : List Token} {parts : List (Token × Token)} (h : Star HeaderPart ts parts)
      (hsome : parts ≠ []) : Header ts (.keyword parts)

/-- `'[' body ']' | '<' 'primitive:' Symbol '>'` -/
inductive Implementation : List Token → MethodBody Unit → Prop where
  | code {opening closing : Token} {ts locals : List Token} {statements : List (Statement Unit)}
      (hopening : opening.kind = .leftSquare) (hbody : Contents ts locals statements)
      (hclosing : closing.kind = .rightSquare) :
      Implementation (opening :: (ts ++ [closing])) (.code ⟨locals, statements⟩)
  | primitive {less word name greater : Token}
      (hless : less.kind = .operator ∧ less.text = "<")
      (hword : word.kind = .keyword ∧ word.text = "primitive:") (hname : name.kind = .symbol)
      (hgreater : greater.kind = .operator ∧ greater.text = ">") :
      Implementation [less, word, name, greater] (.primitive name)

/-- A method, of instances or, after the word `class`, of the class itself. -/
inductive Method : List Token → MethodDef Unit → Prop where
  | instanceSide {ts us : List Token} {signature : Signature} {body : MethodBody Unit}
      (hheader : Header ts signature) (hbody : Implementation us body) :
      Method (ts ++ us) ⟨none, signature, body⟩
  | classSide {word : Token} {ts us : List Token} {signature : Signature} {body : MethodBody Unit}
      (hword : word.kind = .classWord) (hheader : Header ts signature)
      (hbody : Implementation us body) : Method (word :: (ts ++ us)) ⟨some word, signature, body⟩

theorem Method.ne_nil {m : MethodDef Unit} (h : Method ts m) : ts ≠ [] := by
  rcases h with ⟨-, hbody⟩ | -
  · cases hbody <;> simp
  · exact List.cons_ne_nil _ _

/-- The name of a class and its superclass, if one is named. -/
inductive Heading : List Token → Token → Option Token → Prop where
  | root {name : Token} (hname : name.kind = .identifier) : Heading [name] name none
  | sub {name colon parent : Token} (hname : name.kind = .identifier)
      (hcolon : colon.kind = .colon) (hparent : parent.kind = .identifier) :
      Heading [name, colon, parent] name (some parent)
  /-- Without a blank in front of it, the colon is part of the name. -/
  | joined {name parent : Token} (hname : name.kind = .keyword)
      (hparent : parent.kind = .identifier) : Heading [name, parent] name (some parent)

/-- `'class' heading '[' vars? method* ']'` -/
inductive Definition : List Token → ClassDef Unit → Prop where
  | mk {word name opening closing : Token} {superclass : Option Token}
      {hs vs fields ms : List Token} {methods : List (MethodDef Unit)}
      (hword : word.kind = .classWord) (hheading : Heading hs name superclass)
      (hopening : opening.kind = .leftSquare) (hfields : Variables vs fields)
      (hmethods : Star Method ms methods) (hclosing : closing.kind = .rightSquare) :
      Definition (word :: (hs ++ opening :: (vs ++ (ms ++ [closing]))))
        ⟨word, name, superclass, fields, methods, some closing⟩

theorem Definition.ne_nil {c : ClassDef Unit} (h : Definition ts c) : ts ≠ [] := by
  cases h
  exact List.cons_ne_nil _ _

/-- **A whole program**: definitions of classes, then a body. -/
inductive File : List Token → List (ClassDef Unit) → Body Unit → Prop where
  | mk {cs ts locals : List Token} {classes : List (ClassDef Unit)}
      {statements : List (Statement Unit)} (hclasses : Star Definition cs classes)
      (hmain : Contents ts locals statements) : File (cs ++ ts) classes ⟨locals, statements⟩

end Smalltalk.Grammar
