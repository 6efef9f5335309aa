namespace Lineage.Wire

/-!
# Layouts of messages

* `MessageType` — the messages that a request for generated files consists of,
* `MessageType.fieldType?` — what a field of such a message holds.

Every known field must be well formed, also one whose content is of no use here.
-/

/-- The messages that a request consists of. -/
inductive MessageType where
  | request
  | compilerVersion
  | file
  | message
  | extensionRange
  | reservedRange
  | field
  | oneof
  | enumeration
  | enumValue
  | service
  | method
  | sourceInfo
  | location
  | fileOptions
  | messageOptions
  | fieldOptions
  | enumOptions
  | enumValueOptions
  | serviceOptions
  | methodOptions
  /-- Options of which none is known. -/
  | plainOptions
  | uninterpretedOption
  | namePart
deriving DecidableEq

/-- What a field holds. -/
inductive FieldType where
  | number
  | double
  | text
  | bytes
  /-- A list of numbers, packed or one by one. -/
  | numbers
  | message (type : MessageType)
deriving DecidableEq

/-- Options that were not understood stand under one number in options of every kind. -/
def optionType? (known : Nat → Option FieldType) (number : Nat) : Option FieldType :=
  if number = 999 then some (.message .uninterpretedOption) else known number

/-- What a field of a message holds, if the number is known. -/
def MessageType.fieldType? : MessageType → Nat → Option FieldType
  | request => fun
    | 1 | 2 => some .text
    | 3 => some (.message compilerVersion)
    | 15 => some (.message file)
    | _ => none
  | compilerVersion => fun
    | 1 | 2 | 3 => some .number
    | 4 => some .text
    | _ => none
  | file => fun
    | 1 | 2 | 3 | 12 => some .text
    | 4 => some (.message message)
    | 5 => some (.message enumeration)
    | 6 => some (.message service)
    | 7 => some (.message field)
    | 8 => some (.message fileOptions)
    | 9 => some (.message sourceInfo)
    | 10 | 11 => some .numbers
    | _ => none
  | message => fun
    | 1 | 10 => some .text
    | 2 | 6 => some (.message field)
    | 3 => some (.message message)
    | 4 => some (.message enumeration)
    | 5 => some (.message extensionRange)
    | 7 => some (.message messageOptions)
    | 8 => some (.message oneof)
    | 9 => some (.message reservedRange)
    | _ => none
  | extensionRange => fun
    | 1 | 2 => some .number
    | 3 => some (.message plainOptions)
    | _ => none
  | reservedRange => fun
    | 1 | 2 => some .number
    | _ => none
  | field => fun
    | 1 | 2 | 6 | 7 | 10 => some .text
    | 3 | 4 | 5 | 9 | 17 => some .number
    | 8 => some (.message fieldOptions)
    | _ => none
  | oneof => fun
    | 1 => some .text
    | 2 => some (.message plainOptions)
    | _ => none
  | enumeration => fun
    | 1 | 5 => some .text
    | 2 => some (.message enumValue)
    | 3 => some (.message enumOptions)
    | 4 => some (.message reservedRange)
    | _ => none
  | enumValue => fun
    | 1 => some .text
    | 2 => some .number
    | 3 => some (.message enumValueOptions)
    | _ => none
  | service => fun
    | 1 => some .text
    | 2 => some (.message method)
    | 3 => some (.message serviceOptions)
    | _ => none
  | method => fun
    | 1 | 2 | 3 => some .text
    | 4 => some (.message methodOptions)
    | 5 | 6 => some .number
    | _ => none
  | sourceInfo => fun
    | 1 => some (.message location)
    | _ => none
  | location => fun
    | 1 | 2 => some .numbers
    | 3 | 4 | 6 => some .text
    | _ => none
  | fileOptions => optionType? fun
    | 1 | 8 | 11 | 36 | 37 | 39 | 40 | 41 | 44 | 45 => some .text
    | 9 | 10 | 16 | 17 | 18 | 20 | 23 | 27 | 31 | 42 => some .number
    | _ => none
  | messageOptions => optionType? fun
    | 1 | 2 | 3 | 7 => some .number
    | _ => none
  | fieldOptions => optionType? fun
    | 1 | 2 | 3 | 5 | 6 | 10 => some .number
    | _ => none
  | enumOptions => optionType? fun
    | 2 | 3 => some .number
    | _ => none
  | enumValueOptions => optionType? fun
    | 1 => some .number
    | _ => none
  | serviceOptions => optionType? fun
    | 33 => some .number
    | _ => none
  | methodOptions => optionType? fun
    | 33 | 34 => some .number
    | _ => none
  | plainOptions => optionType? fun _ => none
  | uninterpretedOption => fun
    | 2 => some (.message namePart)
    | 3 | 8 => some .text
    | 4 | 5 => some .number
    | 6 => some .double
    | 7 => some .bytes
    | _ => none
  | namePart => fun
    | 1 => some .text
    | 2 => some .number
    | _ => none

end Lineage.Wire
