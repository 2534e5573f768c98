import PetClient.Main
import PetClient.Json.Encode
import PetClient.Proofs.Call
import PetClient.Proofs.Fields
import PetClient.Proofs.Outcome
import PetClient.Proofs.Json.Scalar
import PetClient.Proofs.Json.Literal
import PetClient.Proofs.Json.Composite
import PetClient.Proofs.Wire
import PetClient.Proofs.Destination
import PetClient.Proofs.Secrecy
import PetClient.Proofs.Url.Form
import PetClient.Proofs.Url.Parts
import PetClient.Proofs.Target
import PetClient.Proofs.Query
import PetClient.Proofs.Url.Bare
import PetClient.Proofs.Endpoints
import PetClient.Proofs.Json.Layout
import PetClient.Proofs.Showing
import PetClient.Proofs.Dict
import PetClient.Proofs.Merging
import PetClient.Proofs.Layers
import PetClient.Proofs.Confinement
import PetClient.Proofs.Acceptance
import PetClient.Proofs.Visible
import PetClient.Proofs.Json.Skip
import PetClient.Proofs.Json.Extent
import PetClient.Proofs.Json.Spelling
import PetClient.Proofs.Json.Feeding
import PetClient.Proofs.Json.Pieces
import PetClient.Proofs.Json.Passed
import PetClient.Proofs.Json.Members
import PetClient.Proofs.Presentation
import PetClient.Proofs.Json.Exact
import PetClient.Proofs.Json.Tree
import PetClient.Proofs.Json.Standing
import PetClient.Proofs.Bodies
import PetClient.Proofs.Json.Given
import PetClient.Proofs.Json.Gap
import PetClient.Proofs.Seats
import PetClient.Proofs.Integers
import PetClient.Proofs.Listing
import PetClient.Proofs.Stages
import PetClient.Proofs.Writing
import PetClient.Proofs.Creation
import PetClient.Proofs.Yaml.Scalar
import PetClient.Proofs.Yaml.Flow
import PetClient.Proofs.Yaml.Piece
import PetClient.Proofs.Yaml.Node
import PetClient.Proofs.Reloading
import PetClient.Proofs.Agreement
