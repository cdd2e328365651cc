import AccessControl.Ace
import AccessControl.Ace.Builder
import AccessControl.Ace.Kind
import AccessControl.Ace.Payload
import AccessControl.Ace.Type
import AccessControl.Ace.Wire
import AccessControl.Acl
import AccessControl.Acl.Wire
import AccessControl.Bits
import AccessControl.Bitset
import AccessControl.Buffer
import AccessControl.Bytes
import AccessControl.Bytes.Field
import AccessControl.Claim
import AccessControl.Claim.Kind
import AccessControl.Claim.Wire
import AccessControl.Condition
import AccessControl.Condition.Node
import AccessControl.Condition.Operator
import AccessControl.Condition.Render
import AccessControl.Condition.Wire
import AccessControl.Descriptor
import AccessControl.Descriptor.Wire
import AccessControl.Error
import AccessControl.Guid
import AccessControl.Interchange
import AccessControl.Interchange.Document
import AccessControl.Meaning
import AccessControl.Meaning.Tables
import AccessControl.Numeral
import AccessControl.Sid
import AccessControl.Sid.Text
import AccessControl.Sid.WellKnown
import AccessControl.Sid.Wire
import AccessControl.Text.Case
import AccessControl.Text.Fields
import AccessControl.Text.Invisible
import AccessControl.Text.Quoted
import AccessControl.Transfer
import AccessControl.Utf16
import AccessControl.Proofs.Bytes.Fields
import AccessControl.Proofs.Bytes.Prefixes
import AccessControl.Proofs.Text.Utf16
import AccessControl.Proofs.Text.Surrogates
import AccessControl.Proofs.Text.Numeral
import AccessControl.Proofs.Text.Canonical
import AccessControl.Proofs.Text.Hex
import AccessControl.Proofs.Sid.Wire
import AccessControl.Proofs.Sid.Text
import AccessControl.Proofs.Sid.Canonical
import AccessControl.Proofs.Sid.Routes
import AccessControl.Proofs.Sid.Order
import AccessControl.Proofs.Guid.Text
import AccessControl.Proofs.Condition.Tokens
import AccessControl.Proofs.Condition.Literals
import AccessControl.Proofs.Condition.Run
import AccessControl.Proofs.Condition.Wire
import AccessControl.Proofs.Claim.Wire
import AccessControl.Proofs.Ace.Payload
import AccessControl.Proofs.Ace.Wire
import AccessControl.Proofs.Acl.Wire
import AccessControl.Proofs.Descriptor.Wire
import AccessControl.Proofs.Descriptor.Changes
import AccessControl.Proofs.Descriptor.Layout
import AccessControl.Proofs.Acl.Order
import AccessControl.Proofs.Descriptor.Rules
import AccessControl.Proofs.Descriptor.Control
import AccessControl.Proofs.Claim.Injective
import AccessControl.Proofs.Claim.Decode
import AccessControl.Proofs.Ace.Size
import AccessControl.Proofs.Acl.Size
import AccessControl.Proofs.Descriptor.Storing
import AccessControl.Proofs.Ace.Routes
import AccessControl.Proofs.Ace.Building
import AccessControl.Proofs.Ace.Extent
import AccessControl.Proofs.Ace.Unassigned
import AccessControl.Proofs.Acl.Extent
import AccessControl.Proofs.Acl.Writing
import AccessControl.Proofs.Acl.Rewriting
import AccessControl.Proofs.Descriptor.Writing
import AccessControl.Proofs.Descriptor.Truncation
import AccessControl.Proofs.Bitset.Lookup
import AccessControl.Proofs.Bitset.Names
import AccessControl.Proofs.Bitset.Text
import AccessControl.Proofs.Bitset.Updates
import AccessControl.Proofs.Condition.Phrase
import AccessControl.Proofs.Condition.Words
import AccessControl.Proofs.Condition.Text
import AccessControl.Proofs.Interchange
import AccessControl.Proofs.Buffer
import AccessControl.Proofs.Bytes.Failures
import AccessControl.Proofs.Condition.Failures
import AccessControl.Proofs.Ace.Failures
import AccessControl.Proofs.Descriptor.Failures
import AccessControl.Proofs.Descriptor.Shortage
