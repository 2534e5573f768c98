import PetClient.Text.CharTable

/-!
The characters without a glyph of their own: controls, formats, separators other than the space,
private and unassigned characters, and the marks that extend the character before them.
-/

namespace PetClient.Text

def unprintable : CharTable := .ofText
    "0-1f 5f-21 c 252-6f 8-1 6-3 7 1 14 e0-6 a6 26-1 32-1 3-2d 1 1-1 1-1 1-8 1b-3 6-10 a-a 1 2e-14
    10 65-7 1-5 2-1 1-3 20-1 1 1e-1c 59-a 1-d 2b-8 7-2 18-3 1-8 1-2 1-6 f 19-4 1 b-4 20-f 2a-38 37 1
    4-7 4 3-6 a-1 1d 2 8-1 2-1 16 7 1-2 4-2 1 2-5 2-1 2 1-c 2 3-3 18-4 1 6-3 2-1 16 7 2 2 2-3 3-17 4
    1-6 a-1 3 1-b 1 9 3 16 7 2 5-2 4-7 1 2-2 1-e 2-3 c-6 1-7 2 8-1 2-1 16 7 2 5-2 1-1 1-5 2-1 2-e 2
    3-3 12-a 1 6-2 3 4-2 2 1 2-2 2-2 3-2 c-4 1 2-2 3 3-2 1-14 15-5 3 8 3 17 10-2 1-2 4-12 3 2-1 2-3
    a-6 a b 3 17 a 5-2 2-1 1 2-16 3 2-3 a 3-d b 3 29-1 1 2-4 3 3 2-3 3 a-3 1a-1 2 12-2 18 9 1-1 7-8
    2-5 7-6 a-1 3-b 30 2-a 8-7 d-24 2 1 5 18 1 a 2-8 1-1 5 1-8 a-1 4-1f 18-1 1b 1 1 e 24-11 1-4 1-1
    5-30 8 6 d-24 2d-3 1-5 1-1 2-1 19-1 4-2 10-3 d 2-1 6 f 28 1-4 1-1 179 4-1 7 1 4-1 29 4-1 21 4-1
    7 1 4-1 f 39 4-1 43-4 1d-2 1a-5 56-1 6-1 280 1c-2 59-6 12-c 13-2 2-8 12-d d 3-e 34-1 1-6 8 2-a
    9-2 a-5 a-5 b-4 a-5 59-6 5-1 22 1-4 46-9 1f-3 4-1 3-3 2 6-6 1-2 2a-1 5-a 2c-3 1a-5 b-2 39-1 2-2
    38 1-8 1 2-7 6-c a-5 a-5 e-55 30-9 4-2 8 1d-8 c-1 20-3 2-5 38 1-1 3 1-c 30-7 2-4 f-2 3e-4 2b-1
    b-a 1-c 1-6 4 6 3-1 1-4 c0-3f 116-1 6-1 26-1 6-1 8 1 1 1 1f-1 35 f e-1 6 13-1 3 9-10 18-7 2f-10
    2-1 1b d-2 22-3d 8c-3 29a-15 b-14 714-1 179-2 2-4 2d 1-4 1-1 38-6 2-e 17-8 7 7 7 7 7 7 7 7-20
    5e-21 1a 59-b d6-19 10 29-5 10 56-3 65-4 2b 5e 56-8 30 726d-2 37-8 15c-13 2f-3 1-9 20-1 50-1 6-7
    dd-13 11 3 4 19-1 5-3 a-5 38-7 44-9 c-17 d 26-7 19-a 1-b 1e-5 30 2-3 2-1 2 d b-3 7 19 29-5 2-1
    2-a 3 8 1-1 a-1 20 33 1-2 2-1 5-1 1 1-17 11-1 8-a 6-1 6-1 6-8 7 7 3c-3 75 2 4-2 a-5 2ba4-b 17-3
    31-2103 16e-1 6a-25 7-b 5-4 1 18 5 1 2 2 28a-1f 10-f a-15 23 13 4-3 5 87-3 9d-1 1f-2 6-1 6-1 6-1
    3-2 7 7-c 2-1 c 1a 13 2 f-1 e-21 7b-4 3-3 2d-2 58 d-2 1-2e 2d-82 1d-2 31-f 1b-3 24-8 1e-4 26-9
    1e 25-3 e-29 9e-1 a-5 24-3 24-3 28-7 34-a c f 7 2 b f 7 2-2 34-b 137-8 16-9 8-17 6 2a 9-44 6-1 1
    2c 2-2 1-1 17 48-7 9-2f 13 2-4 21-2 1b-4 1b-25 38-3 14-1 2f-e 4 3 1d-9 9-6 9-6 40-1f 25-5 c-8
    36-2 1d-1 1b-4 1a-6 4-b 7-4f 49-36 33-c 33-6 2a-b a-5 26-7 18-7 2-cf 1f 2a-2 1-1 2-f 6-7 9-26
    28-7 16-a 9-15 12-3 4-25 1c-13 17-8 1 36-e 7-3 1e 2-1 1-b 31-3 2-1 2 4-d 19-6 a-8 24-4 1-8 12-7
    23 3-a 34-8 1 8-3 2 10 14-a 12 1c-2 2-3 6 2-3e 7 1 4 f b-5 2f 3-c a-7 2 8-1 2-1 16 7 2 5-2 1 1
    4-1 2-1 2-2 1-b 7-1b a 1-1 1 26 1 2-e 1 2-2 1 3 2-26 38-7 2-2 1 15 1 3-1d 30 2-5 1 2 1-1 1-1 4-7
    a-a5 2f 2-5 4-1 1-1 1b-23 33-7 2 1-1 4-a a-5 d-12 2b 1 2-7 2-5 a-5 14-1b 1b-2 1 2-3 1-8 17-b8
    2f-8 1-1 1-63 53-b 8-1 1-1 8 2 18 5 2-5 4 3-8 a-45 8-1 2a-7 4 4-1a 1-9 28-5 2-3 8-8 1-5 2-2 2e-c
    1-1 9-c 49-6 a-56 1-2 1 1-57 22-d a-5 9 26-d 1 6-9 1d-2 20-18 1-6 1-1 1-4a 7 2 26-14 1-8 a-5 6 2
    25-3 2 1 1-6 a-5 2c-3 a-f5 13-1 4-8 f 24-7 2-2 17-55 1-e 32-c 39b-65 6f 5-a c4-a4b 63-c 430-10
    6-18 f9b-4 247-1ab8 1e-b 3-2 a-6c5 239-6 1f a-3 51 a-5 1e-6 1-9 30-6 f-9 a 7 15-4 13-1af 3a-c5
    5b-4 19-1 19-2b 4b-4 38-a d-3f 4-d 5-8 1cd6-28 20-60 73-21fc 4 7 2 123-e 1-1c 3-1 1-d 4-7
    18c-903 6b-4 d-2 9-6 a-1 1-1 1-f5f fd-2 1b4-5 17-e 11-5e 74-3b f6-9 27-1 3c-4 3-15 2-6 1e-3
    3d-14 42-2 1-79 14-b 14-b 57-8 19-86 55 47 2-1 1-1 2-1 4 c 1 7 41 4-1 8 7 1c 4 5 1-2 7 154-1
    124-1 232-36 4-31 8 e 7-473 1f-5 6-104 3e-91 2d-9 7-1 a-3 2-13f 1e-11 2c-3 a-4 1-1cf 1c-3 a-d5
    1e-1 b-3 1-bf 1f 3 2 7-1 5-8 2-df 7 4 2 f c5-1 9-2f 44-6 1-3 a-3 2-310 44-4b 3d-c1 4 1b 2 1-1 1
    a 4 1 1-5 1-3 1 1 1 3 2 1-1 1 1 1 1 1 2 1-1 4 7 4 4 1 a 11-4 3 5 11-33 2-10d 2c-3 64-b f-1 f f
    25-9 ae-37 1d-c 2c-3 9-6 2-d 6-99 3d9-2 11-2 d-2 da-5 c-3 1-e c-3 38-7 a-5 28-7 1e-1 c-3 2-d
    9-26 158-7 e-1 d-2 b-2 39 1-3 10-1 c-3 a-6 93 67-404 a6e0-1f 111e-1 168e-1 1d31-e 26e-9a1
    21e-5e1 134b-4 212a-dcb85"

end PetClient.Text
